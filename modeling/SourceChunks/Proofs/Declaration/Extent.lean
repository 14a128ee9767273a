import Mathlib
import SourceChunks.Proofs.Declaration.Members
import SourceChunks.Proofs.Pattern.Seam
import SourceChunks.Proofs.Source.Balance

/-!
# Where declarations end

Behind a header, the end of a declaration is looked for by its brackets.  In a text with
balanced brackets that ends with a semicolon, each such search comes to an end before that
semicolon or at it, and what it finds does not depend on what follows the text.

* `Settled`: the rest of such a text.
* `callableParts_append`: what follows does not matter to the parts of a function.
* `statementEndFrom_append`: nor to the end of a type definition or class.
* `serviceOpening_append`: nor to the brace that opens the body of a service.
-/

namespace SourceChunks

/-- The rest of a text from some place on, if it goes on to a last semicolon and white
space, and closes all brackets that are open at its beginning or opened in it. -/
structure Settled (tail rest : List Char) : Prop where
  suffix : ';' :: tail <:+ rest
  blank : ∀ x ∈ tail, Text.isBlank x = true
  parens : ∃ depth, level '(' ')' depth rest = some 0
  squares : ∃ depth, level '[' ']' depth rest = some 0
  braces : ∃ depth, level '{' '}' depth rest = some 0

namespace Settled

variable {tail rest : List Char}

/-- A settled rest stays settled up to its last semicolon. -/
theorem of_append {front : List Char} (h : Settled tail (front ++ rest))
    (hsuffix : ';' :: tail <:+ rest) : Settled tail rest where
  suffix := hsuffix
  blank := h.blank
  parens := by
    obtain ⟨depth, hlevel⟩ := h.parens
    exact exists_level_of_append hlevel
  squares := by
    obtain ⟨depth, hlevel⟩ := h.squares
    exact exists_level_of_append hlevel
  braces := by
    obtain ⟨depth, hlevel⟩ := h.braces
    exact exists_level_of_append hlevel

/-- Neither the last semicolon nor what is behind it is a bracket. -/
theorem notMem (h : Settled tail rest) {x : Char} (hx : x ≠ ';') (hblank : Text.isBlank x = false) :
    x ∉ ';' :: tail := by
  intro hmem
  rcases List.mem_cons.mp hmem with hx' | hmem
  · exact hx hx'
  · rw [h.blank x hmem] at hblank
    contradiction

/-- Behind a character that is not the last semicolon nor white space behind it, the text
is still before that semicolon. -/
theorem suffix_of_cons {x : Char} {gap : List Char} (h : Settled tail (gap ++ x :: rest))
    (hx : x ≠ ';') (hblank : Text.isBlank x = false) : ';' :: tail <:+ rest := by
  have hhere : x :: rest <:+ gap ++ x :: rest := ⟨gap, rfl⟩
  -- The character stands before the last semicolon, at it, or in the white space behind it.
  rcases List.suffix_or_suffix_of_suffix h.suffix hhere with hsuffix | hsuffix
  · rcases List.suffix_cons_iff.mp hsuffix with heq | hsuffix
    · exact absurd (List.cons.inj heq).1.symm hx
    · exact hsuffix
  · exact absurd (hsuffix.subset List.mem_cons_self) (h.notMem hx hblank)

/-- The rest behind such a character is settled. -/
theorem behind {x : Char} {gap : List Char} (h : Settled tail (gap ++ x :: rest))
    (hx : x ≠ ';') (hblank : Text.isBlank x = false) : Settled tail rest := by
  have hsuffix := h.suffix_of_cons hx hblank
  rw [List.append_cons] at h
  exact h.of_append hsuffix

theorem of_cons {x : Char} (h : Settled tail (x :: rest)) (hsuffix : ';' :: tail <:+ rest) :
    Settled tail rest := by
  rw [← List.singleton_append] at h
  exact h.of_append hsuffix

theorem behind_cons {x : Char} (h : Settled tail (x :: rest)) (hx : x ≠ ';')
    (hblank : Text.isBlank x = false) : Settled tail rest := by
  rw [← List.nil_append (x :: rest)] at h
  exact h.behind hx hblank

/-- A settled rest is the last semicolon with white space, or goes on before it. -/
theorem eq_or_suffix {x : Char} (h : Settled tail (x :: rest)) :
    (x = ';' ∧ rest = tail) ∨ ';' :: tail <:+ rest := by
  rcases List.suffix_cons_iff.mp h.suffix with heq | hsuffix
  · obtain ⟨hx, hrest⟩ := List.cons.inj heq
    exact .inl ⟨hx.symm, hrest.symm⟩
  · exact .inr hsuffix

/-- Where only the last semicolon and white space are left, no bracket is open. -/
theorem depth_eq_zero {opening closing : Char} {depth : Nat} (hopening : opening ∉ ';' :: tail)
    (hclosing : closing ∉ ';' :: tail) (hlevel : level opening closing depth (';' :: tail) = some 0) :
    depth = 0 := by
  rw [level_of_notMem hopening hclosing] at hlevel
  exact Option.some.inj hlevel

theorem trimLeft_append (h : Settled tail rest) (more : List Char) :
    Text.trimLeft (rest ++ more) = Text.trimLeft rest ++ more :=
  Text.trimLeft_append ⟨';', h.suffix.subset List.mem_cons_self, by decide⟩ more

/-- White space in front of a settled rest can be left out. -/
theorem trimLeft (h : Settled tail rest) : Settled tail (Text.trimLeft rest) := by
  obtain ⟨gap, hgap, hblank⟩ := Text.exists_trimLeft rest
  rw [hgap] at h
  refine h.of_append ?_
  rcases List.suffix_or_suffix_of_suffix h.suffix ⟨gap, rfl⟩ with hafter | hafter
  · exact hafter
  · rcases List.suffix_cons_iff.mp hafter with heq | hafter
    · rw [heq]
    · -- The semicolon would be white space.
      obtain ⟨front, hfront⟩ := h.suffix
      obtain ⟨inner, hinner⟩ := hafter
      rw [← hinner, ← List.cons_append, ← List.append_assoc, List.append_left_inj] at hfront
      have hmem : ';' ∈ gap := by rw [← hfront]; simp
      exact absurd (hblank ';' hmem) (by decide)

end Settled

/-! ## Brackets -/

variable {tail rest : List Char}

/-- Behind the bracket that closes an open one, a settled rest stays settled. -/
theorem settled_of_closingFrom {opening closing : Char} {depth offset stop : Nat}
    (hrest : Settled tail rest) (hclosing : closing ∉ ';' :: tail)
    (h : Bracket.closingFrom opening closing depth offset rest = some stop) :
    Settled tail (rest.drop (stop - offset)) := by
  obtain ⟨front, hfront⟩ := hrest.suffix
  rw [← hfront] at h
  -- Nothing behind the last semicolon closes the bracket, so it is closed before.
  have hle := stop_le_of_closingFrom hclosing h
  have hsuffix : ';' :: tail <:+ rest.drop (stop - offset) := by
    rw [← hfront, List.drop_append_of_le_length (by omega)]
    exact ⟨_, rfl⟩
  rw [← List.take_append_drop (stop - offset) rest] at hrest
  exact hrest.of_append hsuffix

/-- A bracket at the beginning of a settled rest is closed in it, whatever follows. -/
theorem exists_closing {opening closing : Char} (offset : Nat) {depth : Nat}
    (hrest : Settled tail rest) (hclosing : closing ∉ ';' :: tail)
    (hlevel : level opening closing depth (opening :: rest) = some 0) :
    ∃ stop, Bracket.closingFrom opening closing 0 offset rest = some stop ∧
      (∀ more, Bracket.closingFrom opening closing 0 offset (rest ++ more) = some stop) ∧
      offset < stop ∧ stop ≤ offset + rest.length ∧ Settled tail (rest.drop (stop - offset)) := by
  have hopened : level opening closing (depth + 1) rest = some 0 := by simpa using hlevel
  obtain ⟨stop, hstop⟩ := exists_closingFrom offset hopened (Nat.succ_pos depth)
  obtain ⟨hlt, hle⟩ := closingFrom_bounds hstop
  exact ⟨stop, hstop, closingFrom_append_of_some hstop, hlt, hle,
    settled_of_closingFrom hrest hclosing hstop⟩

/-! ## Return types and bodies -/

/-- The search for the end of a return type ends before the last semicolon or at it. -/
theorem returnTypeEndFrom_append {read : List Char} {depth depth' offset : Nat}
    (hrest : Settled tail rest) (hlevel : level '{' '}' depth' rest = some 0)
    (hdepth : depth ≤ depth') (more : List Char) :
    returnTypeEndFrom read depth offset (rest ++ more) = returnTypeEndFrom read depth offset rest := by
  -- The search counts at most the braces that are open, so at the last semicolon it counts
  -- none, and a semicolon outside all braces ends it.
  induction rest generalizing read depth depth' offset with
  | nil => exact absurd hrest.suffix (by simp)
  | cons c rest ih =>
      rcases hrest.eq_or_suffix with ⟨rfl, rfl⟩ | hsuffix
      · obtain rfl : depth' = 0 := Settled.depth_eq_zero
          (hrest.notMem (by decide) (by decide)) (hrest.notMem (by decide) (by decide)) hlevel
        obtain rfl : depth = 0 := Nat.le_zero.mp hdepth
        rfl
      · have hrest' : Settled tail rest := hrest.of_cons hsuffix
        rw [level_cons] at hlevel
        obtain ⟨next, hnext, hbehind⟩ := Option.bind_eq_some_iff.mp hlevel
        have hdepth' : blockDepth depth [c] ≤ next :=
          (blockDepth_le hdepth [c]).trans_eq (blockDepth_of_depthAfter hnext)
        cases depth with
        | zero =>
            by_cases hopen : c = '{'
            · subst hopen
              simp [returnTypeEndFrom, ih hrest' hbehind (show 1 ≤ next from hdepth')]
            · simp [returnTypeEndFrom, hopen, ih hrest' hbehind (Nat.zero_le next)]
        | succ depth => exact ih hrest' hbehind hdepth'

theorem exists_of_returnTypeEndFrom {read : List Char} {depth offset opening : Nat}
    (h : returnTypeEndFrom read depth offset rest = some opening) :
    ∃ gap more, rest = gap ++ '{' :: more ∧ opening = offset + gap.length := by
  induction rest generalizing read depth offset with
  | nil => cases depth <;> contradiction
  | cons c rest ih =>
      have hnext : ∀ read depth, returnTypeEndFrom read depth (offset + 1) rest = some opening →
          ∃ gap more, c :: rest = gap ++ '{' :: more ∧ opening = offset + gap.length := by
        intro read depth h
        obtain ⟨gap, more, rfl, hopening⟩ := ih h
        exact ⟨c :: gap, more, rfl, by rw [List.length_cons]; omega⟩
      cases depth with
      | zero =>
          rw [returnTypeEndFrom] at h
          split_ifs at h with hopen
          · exact hnext _ _ h
          · obtain rfl : offset = opening := Option.some.inj h
            exact ⟨[], rest, by rw [hopen]; rfl, rfl⟩
          · exact hnext _ _ h
      | succ depth =>
          rw [returnTypeEndFrom] at h
          exact hnext _ _ h

@[simp] theorem behindReturns_eq_some {s type : List Char} :
    behindReturns? s = some type ↔
      s = "returns".toList ++ type ∧ type.head?.any Text.isWord = false := by
  rw [behindReturns?, Option.ite_none_right_eq_some, Bool.and_eq_true, List.isPrefixOf_iff_prefix,
    Option.some.injEq, Bool.not_eq_true']
  constructor
  · rintro ⟨⟨⟨more, rfl⟩, hword⟩, htype⟩
    rw [List.drop_left] at htype hword
    rw [← htype]
    exact ⟨rfl, hword⟩
  · rintro ⟨rfl, hword⟩
    rw [List.drop_left]
    exact ⟨⟨List.prefix_append _ _, hword⟩, rfl⟩

/-- Behind the word of a settled rest, the rest is settled. -/
theorem settled_behindReturns {type : List Char} (hrest : Settled tail rest)
    (h : behindReturns? rest = some type) : Settled tail type := by
  obtain ⟨rfl, -⟩ := behindReturns_eq_some.mp h
  have hsplit : Settled tail ("return".toList ++ 's' :: type) := hrest
  exact hsplit.behind (by decide) (by decide)

/-- Whether a settled rest begins with the word can be told without what follows. -/
theorem behindReturns_append (hrest : Settled tail rest) (more : List Char) :
    behindReturns? (rest ++ more) = (behindReturns? rest).map (· ++ more) := by
  cases h : behindReturns? rest with
  | some type =>
      have hsettled := settled_behindReturns hrest h
      obtain ⟨rfl, hword⟩ := behindReturns_eq_some.mp h
      refine behindReturns_eq_some.mpr ⟨by rw [List.append_assoc], ?_⟩
      cases type with
      | nil => exact absurd hsettled.suffix (by simp)
      | cons c type => exact hword
  | none =>
      rw [Option.map_none, Option.eq_none_iff_forall_ne_some]
      intro type htype
      obtain ⟨heq, hword⟩ := behindReturns_eq_some.mp htype
      have hmem : ';' ∈ rest := hrest.suffix.subset List.mem_cons_self
      -- The word would end behind the text, which has a semicolon, or in it, where it would
      -- have been found.
      rcases List.append_eq_append_iff.mp heq with ⟨gap, hgap, -⟩ | ⟨gap, rfl, rfl⟩
      · have habsent : ';' ∉ "returns".toList := by decide
        exact habsent (by rw [hgap]; exact List.mem_append_left _ hmem)
      · cases gap with
        | nil =>
            have habsent : ';' ∉ "returns".toList := by decide
            rw [List.append_nil] at hmem
            exact habsent hmem
        | cons c gap =>
            have hfound : behindReturns? ("returns".toList ++ c :: gap) = some (c :: gap) :=
              behindReturns_eq_some.mpr ⟨rfl, hword⟩
            rw [hfound] at h
            contradiction

theorem callableTail_append (offset : Nat) (hrest : Settled tail rest) (more : List Char) :
    callableTail? offset (rest ++ more) = callableTail? offset rest := by
  have hlength : (rest ++ more).length - (Text.trimLeft rest ++ more).length =
      rest.length - (Text.trimLeft rest).length := by
    rw [List.length_append, List.length_append, Nat.add_sub_add_right]
  rw [callableTail?, callableTail?, hrest.trimLeft_append, hlength,
    behindReturns_append hrest.trimLeft]
  cases htype : behindReturns? (Text.trimLeft rest) with
  | some type =>
      have hsettled := settled_behindReturns hrest.trimLeft htype
      obtain ⟨depth, hlevel⟩ := hsettled.braces
      simp only [Option.map_some]
      rw [returnTypeEndFrom_append hsettled hlevel (Nat.zero_le depth)]
  | none =>
      -- The brace would be the next character, which there is in the text itself.
      obtain ⟨x, after, hafter, -⟩ := Pattern.exists_cons_of_suffix hrest.trimLeft.suffix
      rw [hafter]
      rfl

/-- The brace that opens a body stands in the text behind the parameters. -/
theorem exists_of_callableTail {offset : Nat} {found : CallableTail}
    (h : callableTail? offset rest = some found) :
    ∃ gap more, rest = gap ++ '{' :: more ∧ found.opening = offset + gap.length ∧
      ∀ returns ∈ found.returns, returns.stop = found.opening := by
  obtain ⟨gap, hgap, -⟩ := Text.exists_trimLeft rest
  have hlength := congrArg List.length hgap
  rw [List.length_append] at hlength
  rw [callableTail?] at h
  cases htype : behindReturns? (Text.trimLeft rest) with
  | some type =>
      simp only [htype] at h
      obtain ⟨opening, hopening, rfl⟩ := Option.map_eq_some_iff.mp h
      obtain ⟨inner, more, rfl, rfl⟩ := exists_of_returnTypeEndFrom hopening
      obtain ⟨hafter, -⟩ := behindReturns_eq_some.mp htype
      refine ⟨gap ++ "returns".toList ++ inner, more, ?_, ?_, ?_⟩
      · rw [List.append_assoc, List.append_assoc, ← hafter]
        exact hgap
      · have hword : "returns".toList.length = "returns".length := by decide
        rw [List.length_append, List.length_append, hword]
        show offset + (rest.length - (Text.trimLeft rest).length) + _ + _ = _
        omega
      · intro returns hreturns
        rw [← Option.some.inj hreturns]
  | none =>
      simp only [htype, Option.ite_none_right_eq_some, Option.some.injEq] at h
      obtain ⟨hhead, rfl⟩ := h
      obtain ⟨more, hmore⟩ := List.head?_eq_some_iff.mp hhead
      refine ⟨gap, more, by rw [← hmore]; exact hgap, ?_, by simp⟩
      show offset + (rest.length - (Text.trimLeft rest).length) = _
      omega

/-- Behind a brace in a settled rest of a text, the text goes on. -/
theorem drop_behind {text gap : List Char} {x : Char} {offset : Nat}
    (h : text.drop offset = gap ++ x :: rest) :
    text.drop (offset + gap.length + 1) = rest ∧ offset + gap.length + 1 ≤ text.length := by
  constructor
  · rw [Nat.add_assoc, ← List.drop_drop, h, ← List.drop_drop, List.drop_left, List.drop_succ_cons,
      List.drop_zero]
  · have hlength := congrArg List.length h
    simp only [List.length_drop, List.length_append, List.length_cons] at hlength
    omega

/-- A block that opens in a settled rest of a text is closed in it, whatever follows. -/
theorem blockEndFrom_append {text gap : List Char} {offset opening : Nat}
    (hrest : Settled tail (text.drop offset)) (hsplit : text.drop offset = gap ++ '{' :: rest)
    (hopening : opening = offset + gap.length) (more : List Char) :
    Bracket.blockEndFrom (opening + 1) ((text ++ more).drop (opening + 1)) =
      Bracket.blockEndFrom (opening + 1) (text.drop (opening + 1)) := by
  obtain ⟨hbehind, hle⟩ := drop_behind hsplit
  rw [← hopening] at hbehind hle
  rw [hsplit] at hrest
  obtain ⟨depth, hlevel⟩ := hrest.braces
  obtain ⟨depth', hlevel'⟩ := exists_level_of_append hlevel
  obtain ⟨stop, hstop, hmore, -⟩ := exists_closing (opening + 1)
    (hrest.behind (by decide) (by decide)) (hrest.notMem (by decide) (by decide)) hlevel'
  rw [List.drop_append_of_le_length hle, hbehind, Bracket.blockEndFrom, Bracket.blockEndFrom,
    hmore, hstop]

/-- The parts of a function do not depend on what follows a text in which its parameters
are settled. -/
theorem callableParts_append {text : List Char} {start : Nat} (hstart : start ≤ text.length)
    (hrest : Settled tail ('(' :: text.drop start)) (more : List Char) :
    callableParts (text ++ more) start = callableParts text start := by
  obtain ⟨depth, hlevel⟩ := hrest.parens
  -- The parameters are closed in the text, which is settled behind them as well.
  obtain ⟨behind, hbehind, hmore, hlt, hle, hsettled⟩ := exists_closing start
    (hrest.behind_cons (by decide) (by decide)) (hrest.notMem (by decide) (by decide)) hlevel
  rw [List.drop_drop, Nat.add_sub_cancel' hlt.le] at hsettled
  rw [List.length_drop] at hle
  rw [callableParts, callableParts, List.drop_append_of_le_length hstart, hmore, hbehind]
  simp only
  rw [List.drop_append_of_le_length (by omega), callableTail_append behind hsettled]
  cases htail : callableTail? behind (text.drop behind) with
  | none => rfl
  | some found =>
      obtain ⟨gap, body, hbody, hopening, -⟩ := exists_of_callableTail htail
      simp only
      rw [blockEndFrom_append hsettled hbody hopening]

/-! ## Semicolons and listeners -/

theorem behindSemicolon_append (offset : Nat) (hrest : Settled tail rest) (more : List Char) :
    Locate.behindSemicolon offset (rest ++ more) = Locate.behindSemicolon offset rest := by
  obtain ⟨x, after, hafter, -⟩ := Pattern.exists_cons_of_suffix hrest.trimLeft.suffix
  rw [Locate.behindSemicolon, Locate.behindSemicolon, hrest.trimLeft_append, List.length_append,
    List.length_append, Nat.add_sub_add_right, hafter]
  rfl

/-- The end of a declaration comes with the last semicolon or before it. -/
theorem statementEndFrom_append (offset : Nat) (hrest : Settled tail rest) (more : List Char) :
    Locate.statementEndFrom offset (rest ++ more) = Locate.statementEndFrom offset rest := by
  -- The search stops at a semicolon, which there is, or at a block, which is closed.
  induction rest generalizing offset with
  | nil => exact absurd hrest.suffix (by simp)
  | cons c rest ih =>
      rw [List.cons_append, Locate.statementEndFrom, Locate.statementEndFrom]
      by_cases hsemicolon : c = ';'
      · rw [if_pos hsemicolon, if_pos hsemicolon]
      · rw [if_neg hsemicolon, if_neg hsemicolon]
        by_cases hopen : c = '{'
        · subst hopen
          obtain ⟨depth, hlevel⟩ := hrest.braces
          obtain ⟨stop, hstop, hmore, hlt, hle, hsettled⟩ := exists_closing (offset + 1)
            (hrest.behind_cons (by decide) (by decide)) (hrest.notMem (by decide) (by decide)) hlevel
          rw [if_pos rfl, if_pos rfl, Bracket.blockEndFrom, Bracket.blockEndFrom, hmore, hstop,
            Option.map_some, Option.map_some, List.drop_append_of_le_length (by omega),
            behindSemicolon_append stop hsettled]
        · rw [if_neg hopen, if_neg hopen]
          refine ih (offset + 1) ?_
          rcases hrest.eq_or_suffix with ⟨hc, -⟩ | hsuffix
          · exact absurd hc hsemicolon
          · exact hrest.of_cons hsuffix

/-- The brace behind a listener comes before the last semicolon.  Parentheses and square
brackets are counted together, so the two counts bound that number only in their sum. -/
theorem blockStartFrom_append {depth parens squares offset : Nat} (hrest : Settled tail rest)
    (hparens : level '(' ')' parens rest = some 0) (hsquares : level '[' ']' squares rest = some 0)
    (hdepth : depth ≤ parens + squares) (more : List Char) :
    Bracket.blockStartFrom depth offset (rest ++ more) =
      Bracket.blockStartFrom depth offset rest := by
  induction rest generalizing depth parens squares offset with
  | nil => exact absurd hrest.suffix (by simp)
  | cons c rest ih =>
      rcases hrest.eq_or_suffix with ⟨rfl, rfl⟩ | hsuffix
      · obtain rfl : parens = 0 := Settled.depth_eq_zero
          (hrest.notMem (by decide) (by decide)) (hrest.notMem (by decide) (by decide)) hparens
        obtain rfl : squares = 0 := Settled.depth_eq_zero
          (hrest.notMem (by decide) (by decide)) (hrest.notMem (by decide) (by decide)) hsquares
        obtain rfl : depth = 0 := Nat.le_zero.mp hdepth
        rfl
      · have hrest' := hrest.of_cons hsuffix
        rw [level_cons] at hparens hsquares
        obtain ⟨parens', hround, hparens⟩ := Option.bind_eq_some_iff.mp hparens
        obtain ⟨squares', hsquare, hsquares⟩ := Option.bind_eq_some_iff.mp hsquares
        rw [depthAfter_eq_some_iff (by decide)] at hround hsquare
        rw [List.cons_append, Bracket.blockStartFrom, Bracket.blockStartFrom]
        split_ifs with hopen hclose
        · have hcounts : [c].count '(' + [c].count '[' = 1 ∧ [c].count ')' + [c].count ']' = 0 := by
            simp only [Bool.or_eq_true, decide_eq_true_eq] at hopen
            rcases hopen with rfl | rfl <;> decide
          exact ih hrest' hparens hsquares (by omega)
        · have hcounts : [c].count '(' + [c].count '[' = 0 ∧ [c].count ')' + [c].count ']' = 1 := by
            simp only [Bool.or_eq_true, decide_eq_true_eq] at hclose
            rcases hclose with rfl | rfl <;> decide
          exact ih hrest' hparens hsquares (by omega)
        · rfl
        · rfl
        · have hcounts : [c].count ')' = 0 ∧ [c].count ']' = 0 := by
            simp only [Bool.or_eq_true, decide_eq_true_eq, not_or] at hclose
            simp [hclose]
          exact ih hrest' hparens hsquares (by omega)

/-- The brace that opens the body of a service does not depend on what follows a text in
which its header is settled. -/
theorem serviceOpening_append {text : List Char} {m : Match Part} (hm : m.span.stop ≤ text.length)
    (hrest : Settled tail (text.drop m.span.stop)) (more : List Char) :
    Locate.serviceOpening? (text ++ more) m = Locate.serviceOpening? text m := by
  rw [Locate.serviceOpening?, Locate.serviceOpening?, List.drop_append_of_le_length hm]
  by_cases hlistener : m.hasPart .listener = true
  · obtain ⟨parens, hparens⟩ := hrest.parens
    obtain ⟨squares, hsquares⟩ := hrest.squares
    rw [if_pos hlistener, if_pos hlistener]
    exact blockStartFrom_append hrest hparens hsquares (Nat.zero_le _) more
  · obtain ⟨x, after, hafter, -⟩ := Pattern.exists_cons_of_suffix hrest.trimLeft.suffix
    rw [if_neg hlistener, if_neg hlistener, hrest.trimLeft_append]
    simp only
    rw [List.length_append, List.length_append, Nat.add_sub_add_right, hafter]
    rfl

end SourceChunks
