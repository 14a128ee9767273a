import Mathlib
import SourceChunks.Proofs.Declaration.Members
import SourceChunks.Proofs.Pattern.Best
import SourceChunks.Proofs.Text.Returns

/-!
# Looking at white space instead of taking it

Two patterns take white space that they could just look at.  A type definition takes one
white-space character behind its name, and an import takes all of the white space behind its
word, of which it gives some back if nothing else is left in front of its semicolon.  Patterns
that only look at the next character find the same declarations, except that there must be two
characters or more between the word and the semicolon of an import.

* `matchesFrom_refine`: a search for one pattern among the results of another one.
* `typeHead`, `typeDefinitions_eq`: type definitions, up to their names.
* `importLike`, `imports_eq`: imports, with any text in front of the semicolon.
-/

namespace SourceChunks

variable {L : Type}

/-- The place behind the next character. -/
def Cursor.next (c : Cursor L) : Cursor L :=
  ⟨c.rest.head?, c.rest.tail, c.offset + 1, c.marks⟩

namespace Pattern

/-! ## Refined searches -/

section

variable {p q : Pattern L} {refine : Match L → Option (Match L)}

/-- A search for a pattern finds what a search for another one does, refined, if that is so at
each place and the two searches go on at the same place. -/
theorem matchesFrom_refine
    (hmatch : ∀ before offset rest,
      p.matchAt before offset rest = (q.matchAt before offset rest).bind refine)
    (hnone : ∀ before offset x rest m, q.matchAt before offset (x :: rest) = some m →
      refine m = none → p.matchesFrom 0 (some x) (offset + 1) rest =
        p.matchesFrom (m.span.stop - offset - 1) (some x) (offset + 1) rest)
    (hsome : ∀ before offset x rest m m', q.matchAt before offset (x :: rest) = some m →
      refine m = some m' → p.matchesFrom (m'.span.stop - offset - 1) (some x) (offset + 1) rest =
        p.matchesFrom (m.span.stop - offset - 1) (some x) (offset + 1) rest)
    (skip : Nat) (before : Option Char) (offset : Nat) (rest : List Char) :
    p.matchesFrom skip before offset rest =
      (q.matchesFrom skip before offset rest).filterMap refine := by
  induction rest generalizing skip before offset with
  | nil => cases skip <;> rfl
  | cons x rest ih =>
      cases skip with
      | succ skip => exact ih skip (some x) (offset + 1)
      | zero =>
          rw [matchesFrom, matchesFrom, hmatch]
          cases hm : q.matchAt before offset (x :: rest) with
          | none => exact ih 0 (some x) (offset + 1)
          | some m =>
              rw [Option.bind_some, List.filterMap_cons]
              cases hrefine : refine m with
              | none =>
                  simp only [hnone before offset x rest m hm hrefine]
                  exact ih _ _ _
              | some m' =>
                  simp only [hsome before offset x rest m m' hm hrefine]
                  exact congrArg (m' :: ·) (ih _ _ _)

/-- Where a pattern finds nothing, it does not matter whether its search skips the place. -/
theorem matchesFrom_skip {idle : List Char}
    (hidle : ∀ x ∈ idle, ∀ before offset rest, p.matchAt before offset (x :: rest) = none)
    (front : List Char) (before : Option Char) (offset : Nat) (rest : List Char) :
    p.matchesFrom (front.length + idle.length) before offset (front ++ idle ++ rest) =
      p.matchesFrom front.length before offset (front ++ idle ++ rest) := by
  induction front generalizing before offset with
  | cons x front ih =>
      rw [List.length_cons, Nat.add_right_comm]
      exact ih (some x) (offset + 1)
  | nil =>
      simp only [List.length_nil, Nat.zero_add, List.nil_append]
      induction idle generalizing before offset with
      | nil => rfl
      | cons x idle ih =>
          obtain ⟨hx, hidle⟩ := List.forall_mem_cons.mp hidle
          have hrest := ih hidle (some x) (offset + 1)
          rw [List.cons_append, List.length_cons, matchesFrom, matchesFrom, hx, hrest]

end

/-! ## The next character -/

theorem ends_ahead_one_cons (accepts : Char → Bool) {c : Cursor L} {x : Char} {rest : List Char}
    (h : c.rest = x :: rest) : ends (ahead (one accepts)) c = if accepts x then [c] else [] := by
  cases hx : accepts x with
  | true => simp [ends, h, hx]
  | false => simp [ends, h, hx]

/-- Taking the next character is looking at it, and then going behind it. -/
theorem ends_one_eq_map (accepts : Char → Bool) (c : Cursor L) :
    ends (one accepts) c = (ends (ahead (one accepts)) c).map Cursor.next := by
  cases hrest : c.rest with
  | nil => simp [ends, hrest]
  | cons x rest =>
      rw [ends_ahead_one_cons accepts hrest, ends_one_cons accepts hrest]
      split_ifs
      · rw [List.map_singleton, Cursor.next, hrest]
        rfl
      · rfl

theorem matchAt_eq_none {p : Pattern L} {before : Option Char} {offset : Nat} {rest : List Char}
    (h : ends p ⟨before, rest, offset, []⟩ = []) : p.matchAt before offset rest = none := by
  rw [matchAt_eq, h]
  rfl

theorem ends_edge_seq_eq_nil {p : Pattern L} {c : Cursor L} (h : ends p c = []) :
    ends (edge ++ p) c = [] := by
  rw [ends_seq, List.flatMap_eq_nil_iff]
  intro d hd
  rw [(eq_of_mem_ite hd).2, h]

/-- A word is not found where another character stands. -/
theorem ends_word_eq_nil {y : Char} {s : String} (hs : s.toList.head? = some y) {c : Cursor L}
    {x : Char} {rest : List Char} (hrest : c.rest = x :: rest) (hx : x ≠ y) :
    ends (word s) c = [] :=
  refuses_word (s := x :: rest) hs (fun h => hx (Option.some.inj h)) c hrest

end Pattern

/-! ## Type definitions -/

namespace Patterns

open Pattern

/-- The header of a type definition, up to its name; there must be white space behind it. -/
def typeHead : Pattern Part :=
  edge ++ visibility ++ word "type" ++ blanks ++ declaredName ++ ahead (one Text.isBlank)

theorem ends_typeDefinition (c : Cursor Part) :
    ends typeDefinition c = (ends typeHead c).map Cursor.next := by
  have hone : ends (one Text.isBlank) =
      fun d : Cursor Part => (ends (ahead (one Text.isBlank)) d).map Cursor.next :=
    funext (ends_one_eq_map Text.isBlank)
  rw [typeDefinition, typeHead, ends_seq _ (one Text.isBlank), ends_seq _ (ahead _), hone,
    List.map_flatMap]

theorem matchAt_typeDefinition (before : Option Char) (offset : Nat) (rest : List Char) :
    typeDefinition.matchAt before offset rest =
      (typeHead.matchAt before offset rest).map fun m =>
        ⟨⟨m.span.start, m.span.stop + 1⟩, m.marks⟩ := by
  rw [matchAt_eq, matchAt_eq, ends_typeDefinition, List.head?_map, Option.map_map, Option.map_map]
  rfl

/-- No type definition begins with white space. -/
theorem matchAt_typeDefinition_blank {x : Char} (hx : Text.isBlank x = true) (before : Option Char)
    (offset : Nat) (rest : List Char) : typeDefinition.matchAt before offset (x :: rest) = none := by
  have hwords : ∀ d ∈ ends visibility (⟨before, x :: rest, offset, []⟩ : Cursor Part),
      ends (word "type") d = [] := by
    intro d hd
    rcases List.mem_append.mp hd with hd | hd
    · obtain ⟨e, he, -⟩ := List.mem_flatMap.mp hd
      obtain ⟨e, he, -⟩ := List.mem_map.mp he
      rw [ends_word_eq_nil (y := 'p') (by decide) rfl (Text.ne_of_isBlank hx (by decide))] at he
      contradiction
    · rw [List.mem_singleton.mp hd]
      exact ends_word_eq_nil (y := 't') (by decide) rfl (Text.ne_of_isBlank hx (by decide))
  have hhead : ends (edge ++ visibility ++ word "type")
      (⟨before, x :: rest, offset, []⟩ : Cursor Part) = [] := by
    rw [ends_seq, List.flatMap_eq_nil_iff]
    intro d hd
    obtain ⟨c, hc, hd⟩ := List.mem_flatMap.mp hd
    rw [(eq_of_mem_ite hc).2] at hd
    exact hwords d hd
  apply matchAt_eq_none
  rw [typeDefinition, ends_seq, ends_seq, ends_seq, hhead]
  rfl

/-- What is behind a header of a type definition. -/
theorem exists_of_mem_typeHead {c d : Cursor Part} (hd : d ∈ ends typeHead c) :
    ∃ x front b rest, Text.isBlank b = true ∧ c.rest = x :: front ++ b :: rest ∧
      d.offset = c.offset + front.length + 1 := by
  obtain ⟨passed, hlead⟩ := leads_of_mem_ends hd
  have hlt := offset_lt_of_mem_ends (consumes_of_progresses (p := typeHead) (by decide)) hd
  have hoffset := hlead.offset_eq
  obtain ⟨e, -, hd⟩ := List.mem_flatMap.mp hd
  cases hrest : e.rest with
  | nil => simp [ends, hrest] at hd
  | cons b rest =>
      rw [ends_ahead_one_cons _ hrest] at hd
      obtain ⟨hb, rfl⟩ := eq_of_mem_ite hd
      cases passed with
      | nil => rw [List.length_nil] at hoffset; omega
      | cons x front =>
          refine ⟨x, front, b, rest, hb, by rw [hlead.rest_eq, hrest], ?_⟩
          rw [hoffset, List.length_cons, Nat.add_assoc]

theorem allMatches_typeDefinition (text : List Char) :
    typeDefinition.allMatches text = (typeHead.allMatches text).map fun m =>
      ⟨⟨m.span.start, m.span.stop + 1⟩, m.marks⟩ := by
  rw [← List.filterMap_eq_map]
  refine matchesFrom_refine (fun before offset rest => ?_) ?_ ?_ 0 none 0 text
  · rw [matchAt_typeDefinition, Option.map_eq_bind]
  · intro before offset x rest m hm hnone
    contradiction
  · intro before offset x rest m m' hm hm'
    obtain rfl := Option.some.inj hm'
    rw [matchAt_eq] at hm
    obtain ⟨d, hd, rfl⟩ := Option.map_eq_some_iff.mp hm
    obtain ⟨y, front, b, more, hb, hrest, hoffset⟩ :=
      exists_of_mem_typeHead (List.mem_of_mem_head? hd)
    obtain ⟨rfl, rfl⟩ := List.cons.inj hrest
    -- The one search goes on at the white space behind the name, and the other one behind it.
    have hidle : ∀ z ∈ [b], ∀ before offset rest,
        typeDefinition.matchAt before offset (z :: rest) = none :=
      fun z hz => List.mem_singleton.mp hz ▸ matchAt_typeDefinition_blank hb
    have hskip := matchesFrom_skip hidle front (some x) (offset + 1) more
    have hstop : d.offset = offset + front.length + 1 := hoffset
    simp only [hstop]
    rw [show offset + front.length + 1 + 1 - offset - 1 = front.length + [b].length by
        rw [List.length_singleton]; omega,
      show offset + front.length + 1 - offset - 1 = front.length by omega]
    rwa [List.append_assoc] at hskip

/-! ## Imports -/

/-- A character of an import in front of its semicolon. -/
def isImportChar (c : Char) : Bool :=
  c != ';' && c != '{' && c != '}'

/-- An import, up to its semicolon; there must be white space behind its word. -/
def importLike : Pattern Part :=
  edge ++ word "import" ++ ahead (one Text.isBlank) ++ some1 isImportChar ++ one (· == ';')

/-- What is left of an import behind some characters of it. -/
def importEnd : Pattern Part :=
  run isImportChar ++ one (· == ';')

theorem isImportChar_of_isBlank {x : Char} (hx : Text.isBlank x = true) : isImportChar x = true := by
  have hne : ∀ {y}, Text.isBlank y = false → (x != y) = true :=
    fun hy => bne_iff_ne.mpr (Text.ne_of_isBlank hx hy)
  rw [isImportChar, hne (by decide), hne (by decide), hne (by decide)]
  rfl

theorem ends_importEnd_nil {c : Cursor Part} (h : c.rest = []) : ends importEnd c = [] := by
  rw [importEnd, ends_seq, ends_run_nil _ h, List.flatMap_singleton, ends, h]

/-- The characters of an import are passed over. -/
theorem ends_importEnd_cons {c : Cursor Part} {x : Char} {rest : List Char} (h : c.rest = x :: rest)
    (hx : isImportChar x = true) : ends importEnd c = ends importEnd (c.advance x rest) := by
  have hne : (x == ';') = false := by
    rw [beq_eq_false_iff_ne]
    rintro rfl
    exact absurd hx (by decide)
  rw [importEnd, ends_seq, ends_seq, ends_run_cons _ h, if_pos hx, List.flatMap_append,
    List.flatMap_singleton, ends_one_cons _ h, hne]
  exact List.append_nil _

/-- Where the characters of an import end, there must be its semicolon. -/
theorem ends_importEnd_stop {c : Cursor Part} {x : Char} {rest : List Char} (h : c.rest = x :: rest)
    (hx : isImportChar x = false) :
    ends importEnd c = if x = ';' then [c.advance x rest] else [] := by
  rw [importEnd, ends_seq, ends_run_cons _ h, hx, if_neg (by simp), List.flatMap_singleton,
    ends_one_cons _ h]
  simp only [beq_iff_eq]

/-- At least one character of an import, and what is left of it behind that. -/
def importText : Pattern Part :=
  one isImportChar ++ importEnd

theorem ends_importText_cons {c : Cursor Part} {x : Char} {rest : List Char} (h : c.rest = x :: rest) :
    ends importText c = if isImportChar x then ends importEnd c else [] := by
  rw [importText, ends_seq, ends_one_cons _ h]
  split_ifs with hx
  · rw [List.flatMap_singleton, ends_importEnd_cons h hx]
  · rfl

theorem ends_importText_nil {c : Cursor Part} (h : c.rest = []) : ends importText c = [] := by
  rw [importText, ends_seq, ends, h]
  rfl

/-- White space in front of the text of an import need not be taken by anything else. -/
theorem head_blanks_importText {s : List Char} {c : Cursor Part} (hs : c.rest = s) :
    ((ends spaces c).flatMap (ends importText)).head? = (ends importText c).head? := by
  induction s generalizing c with
  | nil => rw [spaces, ends_run_nil _ hs, List.flatMap_singleton]
  | cons x s ih =>
      rw [spaces, ends_run_cons _ hs]
      split_ifs with hx
      · have hend := ends_importEnd_cons hs (isImportChar_of_isBlank hx)
        rw [List.flatMap_append, List.flatMap_singleton, List.head?_append]
        have hnext := ih (c := c.advance x s) rfl
        rw [spaces] at hnext
        rw [hnext, ends_importText_cons hs, if_pos (isImportChar_of_isBlank hx), hend]
        cases s with
        | nil => rw [ends_importText_nil (c := c.advance x []) rfl]; rfl
        | cons y s =>
            rw [ends_importText_cons (c := c.advance x (y :: s)) rfl]
            split_ifs
            · exact Option.or_self
            · rfl
      · rw [List.flatMap_singleton]

/-- A word has one end at most. -/
theorem ends_literal_cases (text : List Char) (c : Cursor Part) :
    ends (literal text) c = [] ∨ ∃ d, ends (literal text) c = [d] ∧ c.rest = text ++ d.rest ∧
      d.offset = c.offset + text.length := by
  induction text generalizing c with
  | nil => exact .inr ⟨c, rfl, rfl, rfl⟩
  | cons y text ih =>
      rw [literal, ends_seq]
      cases hrest : c.rest with
      | nil => exact .inl (by rw [ends, hrest]; rfl)
      | cons x rest =>
          rw [ends_one_cons _ hrest]
          split_ifs with hx
          · obtain rfl := beq_iff_eq.mp hx
            rw [List.flatMap_singleton]
            rcases ih (c.advance x rest) with hnil | ⟨d, hd, hmore, hoffset⟩
            · exact .inl hnil
            · refine .inr ⟨d, hd, congrArg (x :: ·) hmore, ?_⟩
              rw [hoffset, List.length_cons, Nat.add_comm text.length 1, ← Nat.add_assoc]
              rfl
          · exact .inl rfl

theorem ends_import_cases (c : Cursor Part) :
    ends (edge ++ word "import") c = [] ∨ ∃ d, ends (edge ++ word "import") c = [d] ∧
      c.rest = "import".toList ++ d.rest ∧ d.offset = c.offset + 6 := by
  rw [ends_seq, ends]
  split_ifs
  · rw [List.flatMap_singleton]
    exact ends_literal_cases _ c
  · exact .inl rfl

theorem ends_importLike (c : Cursor Part) :
    ends importLike c = (ends (edge ++ word "import") c).flatMap fun e =>
      (ends (ahead (one Text.isBlank)) e).flatMap (ends importText) := by
  have hseq : ∀ p q : Pattern Part, ends (p ++ q) = fun c => (ends p c).flatMap (ends q) :=
    fun _ _ => rfl
  simp only [importLike, importText, importEnd, some1, hseq, List.flatMap_assoc]

theorem ends_importClause (c : Cursor Part) :
    ends importClause c = (ends (edge ++ word "import") c).flatMap fun e =>
      (ends (one Text.isBlank) e).flatMap fun e => (ends spaces e).flatMap (ends importText) := by
  have hseq : ∀ p q : Pattern Part, ends (p ++ q) = fun c => (ends p c).flatMap (ends q) :=
    fun _ _ => rfl
  have hclause : importClause = edge ++ word "import" ++ (one Text.isBlank ++ spaces) ++
      some1 isImportChar ++ one (· == ';') := rfl
  simp only [hclause, importText, importEnd, some1, hseq, List.flatMap_assoc]

/-- At each place, the two patterns for imports find the same, unless there is only one
white-space character between the word and the semicolon. -/
theorem import_cases (c : Cursor Part) :
    (∃ x rest d, Text.isBlank x = true ∧ c.rest = "import".toList ++ x :: ';' :: rest ∧
      ends importLike c = [d] ∧ d.offset = c.offset + 8 ∧ ends importClause c = []) ∨
    (ends importClause c).head? = (ends importLike c).head? ∧
      ∀ d ∈ ends importLike c, c.offset + 8 < d.offset := by
  have hnothing : ∀ ds : List (Cursor Part), ds.head? = none →
      ds.head? = ([] : List (Cursor Part)).head? ∧ ∀ d ∈ ([] : List (Cursor Part)),
        c.offset + 8 < d.offset := fun ds h => ⟨h, by simp⟩
  rw [ends_importLike, ends_importClause]
  rcases ends_import_cases c with hnil | ⟨e, he, hrest, hoffset⟩
  · rw [hnil]
    exact .inr (hnothing _ rfl)
  rw [he, List.flatMap_singleton, List.flatMap_singleton, hrest]
  cases hx : e.rest with
  | nil =>
      rw [ends_one_eq_map, ends, ends, hx]
      exact .inr (hnothing _ rfl)
  | cons x more =>
      rw [ends_ahead_one_cons _ hx, ends_one_cons _ hx]
      split_ifs with hblank
      · -- Behind the white space, there is the semicolon, or text that both patterns pass over.
        have hmore : (e.advance x more).rest = more := rfl
        have hhead := head_blanks_importText hmore
        rw [List.flatMap_singleton, List.flatMap_singleton, ends_importText_cons hx,
          if_pos (isImportChar_of_isBlank hblank),
          ends_importEnd_cons hx (isImportChar_of_isBlank hblank)]
        cases more with
        | nil =>
            rw [ends_importText_nil hmore] at hhead
            rw [ends_importEnd_nil hmore]
            exact .inr (hnothing _ hhead)
        | cons y rest =>
            rw [ends_importText_cons hmore] at hhead
            split_ifs at hhead with hy
            · rw [ends_importEnd_cons hmore hy] at hhead ⊢
              refine .inr ⟨hhead, fun d hd => ?_⟩
              have hlt : e.offset + 2 < d.offset :=
                offset_lt_of_mem_ends (consumes_of_progresses (p := importEnd) (by decide)) hd
              omega
            · rw [ends_importEnd_stop hmore (by simpa using hy)]
              split_ifs with hsemicolon
              · subst hsemicolon
                refine .inl ⟨x, rest, _, hblank, rfl, rfl, ?_, List.head?_eq_none_iff.mp hhead⟩
                show e.offset + 1 + 1 = _
                omega
              · exact .inr (hnothing _ hhead)
      · exact .inr (hnothing _ rfl)

/-- Whether an import is the word and the semicolon with one white-space character between
them. -/
def isBareImport (span : Span) : Bool :=
  span.stop == span.start + 8

theorem matchAt_importClause (before : Option Char) (offset : Nat) (rest : List Char) :
    importClause.matchAt before offset rest =
      (importLike.matchAt before offset rest).bind
        (Option.guard fun m => !isBareImport m.span) := by
  rw [matchAt_eq, matchAt_eq]
  rcases import_cases ⟨before, rest, offset, []⟩ with
    ⟨x, more, d, -, -, hlike, hoffset, hclause⟩ | ⟨hhead, hbeyond⟩
  · have hoffset : d.offset = offset + 8 := hoffset
    simp [hlike, hclause, Option.guard, isBareImport, hoffset]
  · rw [hhead]
    cases hd : (ends importLike ⟨before, rest, offset, []⟩).head? with
    | none => rfl
    | some d =>
        have hne : d.offset ≠ offset + 8 := ne_of_gt (hbeyond d (List.mem_of_mem_head? hd))
        simp [Option.guard, isBareImport, hne]

/-- The text of an import with one white-space character between the word and the semicolon. -/
theorem exists_of_bare_end {c d : Cursor Part} (hd : d ∈ ends importLike c)
    (hoffset : d.offset = c.offset + 8) :
    ∃ x more, Text.isBlank x = true ∧ c.rest = "import".toList ++ x :: ';' :: more := by
  rcases import_cases c with ⟨x, more, d', hblank, hrest, -, -, -⟩ | ⟨-, hbeyond⟩
  · exact ⟨x, more, hblank, hrest⟩
  · exact absurd hoffset (ne_of_gt (hbeyond d hd))

/-- No import begins with another character than its word. -/
theorem matchAt_importClause_eq_none {x : Char} (hx : x ≠ 'i') (before : Option Char)
    (offset : Nat) (rest : List Char) : importClause.matchAt before offset (x :: rest) = none := by
  apply matchAt_eq_none
  rw [ends_importClause, ends_edge_seq_eq_nil (ends_word_eq_nil (y := 'i') (by decide) rfl hx)]
  rfl

theorem allMatches_importClause (text : List Char) :
    importClause.allMatches text =
      (importLike.allMatches text).filter fun m => !isBareImport m.span := by
  rw [← List.filterMap_eq_filter]
  refine matchesFrom_refine matchAt_importClause ?_ ?_ 0 none 0 text
  · -- The one search skips the characters of the match, in which the other one finds nothing.
    intro before offset x rest m hm hnone
    have hbare : isBareImport m.span = true := by
      simpa [Option.guard] using hnone
    have hstop : m.span.stop = m.span.start + 8 := beq_iff_eq.mp hbare
    rw [start_of_matchAt hm] at hstop
    rw [matchAt_eq] at hm
    obtain ⟨d, hd, rfl⟩ := Option.map_eq_some_iff.mp hm
    obtain ⟨y, more, hy, hrest⟩ := exists_of_bare_end (List.mem_of_mem_head? hd) hstop
    have hword : "import".toList = 'i' :: "mport".toList := by decide
    have hrest : x :: rest = 'i' :: "mport".toList ++ y :: ';' :: more := by rw [← hword]; exact hrest
    obtain ⟨rfl, hmore⟩ := List.cons.inj hrest
    have hidle : ∀ z ∈ "mport".toList ++ [y, ';'], ∀ before offset rest,
        importClause.matchAt before offset (z :: rest) = none := by
      intro z hz
      refine matchAt_importClause_eq_none ?_
      rintro rfl
      rcases List.mem_append.mp hz with hz | hz
      · exact absurd hz (by decide)
      · rcases List.mem_pair.mp hz with rfl | hz
        · exact absurd hy (by decide)
        · exact absurd hz (by decide)
    have hskip := matchesFrom_skip hidle [] (some 'i') (offset + 1) more
    have hseven : d.offset - offset - 1 = ("mport".toList ++ [y, ';']).length := by
      have hstop : d.offset = offset + 8 := hstop
      show d.offset - offset - 1 = 7
      omega
    have hsplit : rest = [] ++ ("mport".toList ++ [y, ';']) ++ more := by
      rw [List.nil_append, List.append_assoc]
      exact hmore
    simp only [hseven, hsplit]
    rw [List.length_nil, Nat.zero_add] at hskip
    exact hskip.symm
  · intro before offset x rest m m' _ hm'
    obtain rfl : m = m' := by
      rw [Option.guard] at hm'
      split_ifs at hm'
      exact Option.some.inj hm'
    rfl

end Patterns

namespace Locate

open Pattern Patterns

/-- White space is passed over in the search for the end of a statement. -/
theorem statementEndFrom_blank {c : Char} (hc : Text.isBlank c = true) (offset : Nat)
    (rest : List Char) : statementEndFrom offset (c :: rest) = statementEndFrom (offset + 1) rest := by
  rw [statementEndFrom, if_neg (Text.ne_of_isBlank hc (by decide)),
    if_neg (Text.ne_of_isBlank hc (by decide))]

/-- Type definitions can be found by their headers up to the name. -/
theorem typeDefinitions_eq (mask : List Char) :
    typeDefinitions mask = blockStatements typeHead .typeDefinition
      (fun m => .typeDefinition (m.hasPart .visibility) (part m .name)) mask := by
  rw [typeDefinitions, blockStatements, blockStatements, topLevelMatches, topLevelMatches,
    allMatches_typeDefinition, List.filter_map, List.map_map]
  refine List.map_congr_left fun m hm => ?_
  obtain ⟨front, rest, d, rfl, -, hd, rfl⟩ := found_of_mem_allMatches (List.mem_of_mem_filter hm)
  obtain ⟨x, name, b, more, hb, hrest, hoffset⟩ := exists_of_mem_typeHead hd
  have hrest : rest = x :: name ++ b :: more := hrest
  have hoffset : d.offset = (front ++ x :: name).length := by
    rw [List.length_append, List.length_cons, ← Nat.add_assoc]
    exact hoffset
  have hdrop : (front ++ rest).drop d.offset = b :: more := by
    rw [hrest, ← List.append_assoc, hoffset, List.drop_left]
  have hdrop' : (front ++ rest).drop (d.offset + 1) = more := by
    rw [← List.drop_drop, hdrop]
    rfl
  simp only [Function.comp_apply, hdrop, hdrop', statementEndFrom_blank hb]
  rfl

/-- The imports of a mask, and what would be imports with wider white space. -/
def importsLike (mask : List Char) : List (Declaration Span) :=
  (topLevelMatches importLike mask).map fun m => ⟨m.span, .importClause⟩

/-- An import has at least two characters between its word and its semicolon. -/
theorem imports_eq (mask : List Char) :
    declarations (imports mask) = (importsLike mask).filter fun d => !isBareImport d.span := by
  have hdeclared : declarations (imports mask) =
      (topLevelMatches importClause mask).map fun m => ⟨m.span, .importClause⟩ := by
    rw [declarations, imports, List.filterMap_map, ← List.filterMap_eq_map]
    rfl
  rw [hdeclared, importsLike, topLevelMatches, topLevelMatches, allMatches_importClause,
    List.filter_map, List.filter_comm]
  rfl

/-- The text of what would be an import with wider white space. -/
theorem slice_of_bare_import {mask : List Char} {d : Declaration Span} (hd : d ∈ importsLike mask)
    (hbare : isBareImport d.span = true) :
    ∃ x, Text.isBlank x = true ∧ d.span.slice mask = "import".toList ++ [x, ';'] := by
  obtain ⟨m, hm, rfl⟩ := List.mem_map.mp hd
  obtain ⟨front, rest, e, rfl, -, he, rfl⟩ := found_of_mem_allMatches (List.mem_of_mem_filter hm)
  have hstop : e.offset = front.length + 8 := beq_iff_eq.mp hbare
  obtain ⟨x, more, hx, hrest⟩ := exists_of_bare_end he hstop
  have hrest : rest = "import".toList ++ x :: ';' :: more := hrest
  refine ⟨x, hx, ?_⟩
  rw [Span.slice, List.drop_left, hrest]
  show List.take (e.offset - front.length) _ = _
  rw [hstop, Nat.add_sub_cancel_left]
  rfl

/-- Nothing like an import is shorter than that. -/
theorem le_of_mem_importsLike {mask : List Char} {d : Declaration Span} (hd : d ∈ importsLike mask) :
    d.span.start + 8 ≤ d.span.stop := by
  obtain ⟨m, hm, rfl⟩ := List.mem_map.mp hd
  obtain ⟨front, rest, e, -, -, he, rfl⟩ := found_of_mem_allMatches (List.mem_of_mem_filter hm)
  rcases import_cases ⟨front.getLast?, rest, front.length, []⟩ with
    ⟨x, more, d, -, -, hends, hoffset, -⟩ | ⟨-, hbeyond⟩
  · rw [hends] at he
    rw [List.mem_singleton.mp he]
    exact hoffset.ge
  · exact (hbeyond e he).le

end Locate

end SourceChunks
