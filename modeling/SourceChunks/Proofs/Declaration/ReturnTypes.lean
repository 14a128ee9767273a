import Mathlib
import SourceChunks.Proofs.Declaration.Guarded

/-!
# Return types

Behind the word `returns` stands a type, and then the brace that opens the body.  The type may
hold blocks of its own, each directly behind the word `record` or `object`; outside of them it
has no brace, semicolon or equals sign.  The search for the brace of the body reads exactly such
types, and can be made by looks from one of these characters to the next, each of which gets
further in the text.

* `EndsInline`: a text ends in a word that an inline type begins with.
* `TypeText`: what may stand between the word `returns` and the brace of the body.
* `returnTypeEndFrom_eq_some_iff`: the search finds the brace behind such a type, and no other.
* `look`, `Looks`: the search by looks; `looks_iff`: it always comes to its end.
* `callableTail_of_grammar`: what is found between the parameters of a function and its body.
-/

namespace SourceChunks

variable {text read clause gap inside rest behind : List Char} {offset opening : Nat}

/-! ## Words of inline types -/

/-- A text ends, but for white space, in one of the words that a block of a type stands behind. -/
def EndsInline (text : List Char) : Prop :=
  ∃ front, ∃ word ∈ ["record", "object"], ∃ gap, text = front ++ word.toList ++ gap ∧
    (∀ x ∈ gap, Text.isBlank x = true) ∧ ∀ x ∈ front.getLast?, Text.isWord x = false

theorem endsWithWord_iff {word : List Char} :
    endsWithWord word read = true ↔
      ∃ front, read = word.reverse ++ front ∧ ∀ x ∈ front.head?, Text.isWord x = false := by
  rw [endsWithWord, Bool.and_eq_true, List.isPrefixOf_iff_prefix]
  constructor
  · rintro ⟨⟨front, rfl⟩, hfront⟩
    have hdrop : (word.reverse ++ front).drop word.length = front :=
      List.drop_left' (List.length_reverse)
    rw [hdrop] at hfront
    exact ⟨front, rfl, fun x hx => by simpa [Option.mem_def.mp hx] using hfront⟩
  · rintro ⟨front, rfl, hfront⟩
    have hdrop : (word.reverse ++ front).drop word.length = front :=
      List.drop_left' (List.length_reverse)
    rw [hdrop]
    refine ⟨List.prefix_append _ _, ?_⟩
    cases hhead : front.head? with
    | none => rfl
    | some x => simp [hfront x hhead]

/-- Behind the text that was read, a block belongs to the type exactly if the text ends in one of
these words. -/
@[simp] theorem endsInlineType_iff : endsInlineType read = true ↔ EndsInline read.reverse := by
  have hwords : endsInlineType read = true ↔ ∃ word ∈ ["record", "object"],
      endsWithWord word.toList (Text.trimLeft read) = true := by
    simp [endsInlineType]
  rw [hwords]
  constructor
  · rintro ⟨word, hword, hends⟩
    obtain ⟨front, hread, hfront⟩ := endsWithWord_iff.mp hends
    obtain ⟨gap, hgap, hblank⟩ := Text.exists_trimLeft read
    refine ⟨front.reverse, word, hword, gap.reverse, ?_, by simpa using hblank,
      by simpa using hfront⟩
    rw [hgap, hread]
    simp
  · rintro ⟨front, word, hword, gap, hread, hblank, hfront⟩
    refine ⟨word, hword, endsWithWord_iff.mpr ⟨front.reverse, ?_, by simpa using hfront⟩⟩
    -- The word ends with a letter, at which the white space behind it ends.
    have hletter : Text.trimLeft (word.toList.reverse ++ front.reverse) =
        word.toList.reverse ++ front.reverse := by
      rcases List.mem_pair.mp hword with rfl | rfl <;> rfl
    have hread' : read = gap.reverse ++ (word.toList.reverse ++ front.reverse) := by
      rw [← List.reverse_reverse read, hread]
      simp
    have hblanks : ∀ x ∈ gap.reverse, Text.isBlank x = true := by simpa using hblank
    rw [hread', Text.trimLeft, List.dropWhile_append_of_pos hblanks]
    exact hletter

/-! ## Types -/

/-- A stretch of a type outside its blocks. -/
def IsPlain (gap : List Char) : Prop :=
  ∀ c ∈ gap, c ≠ '{' ∧ c ≠ ';' ∧ c ≠ '='

/-- The text of a type: stretches outside of blocks, and between them blocks with balanced insides.
What stands before a block ends in a word that an inline type begins with. -/
inductive TypeText : List Char → Prop where
  | plain {gap : List Char} (hgap : IsPlain gap) : TypeText gap
  | block {front inside gap : List Char} (hfront : TypeText front) (hinline : EndsInline front)
      (hinside : Balanced '{' '}' inside) (hgap : IsPlain gap) :
      TypeText (front ++ '{' :: inside ++ '}' :: gap)

/-- A type goes on with any character that needs no block. -/
theorem TypeText.concat (h : TypeText text) {c : Char} (hc : c ≠ '{' ∧ c ≠ ';' ∧ c ≠ '=') :
    TypeText (text ++ [c]) := by
  have hplain : ∀ {gap : List Char}, IsPlain gap → IsPlain (gap ++ [c]) := fun hgap =>
    List.forall_mem_append.mpr ⟨hgap, List.forall_mem_singleton.mpr hc⟩
  cases h with
  | plain hgap => exact .plain (hplain hgap)
  | block hfront hinline hinside hgap =>
      rw [List.append_assoc _ _ [c], List.cons_append]
      exact .block hfront hinline hinside (hplain hgap)

/-! ## The search for the body -/

theorem returnTypeEndFrom_cons (read : List Char) (offset : Nat) (c : Char) (rest : List Char) :
    returnTypeEndFrom read 0 offset (c :: rest) =
      if c = '{' then
        if endsInlineType read then returnTypeEndFrom (c :: read) 1 (offset + 1) rest
        else some offset
      else if c = ';' || c = '=' then none
      else returnTypeEndFrom (c :: read) 0 (offset + 1) rest :=
  rfl

/-- A stretch outside of blocks is passed over. -/
theorem returnTypeEndFrom_plain (hgap : IsPlain gap) (read : List Char) (offset : Nat)
    (rest : List Char) :
    returnTypeEndFrom read 0 offset (gap ++ rest) =
      returnTypeEndFrom (gap.reverse ++ read) 0 (offset + gap.length) rest := by
  induction gap generalizing read offset with
  | nil => rfl
  | cons c gap ih =>
      obtain ⟨⟨hopen, hsemicolon, hequals⟩, hgap⟩ := List.forall_mem_cons.mp hgap
      rw [List.cons_append, returnTypeEndFrom_cons, if_neg hopen,
        if_neg (by simp [hsemicolon, hequals]), ih hgap, List.reverse_cons, List.append_assoc,
        List.length_cons, Nat.add_assoc, Nat.add_comm 1]
      rfl

/-- A block behind the word of an inline type is passed over. -/
theorem returnTypeEndFrom_block (hread : endsInlineType read = true)
    (hinside : Balanced '{' '}' inside) (offset : Nat) (rest : List Char) :
    returnTypeEndFrom read 0 offset ('{' :: inside ++ '}' :: rest) =
      returnTypeEndFrom (('{' :: inside ++ ['}']).reverse ++ read) 0
        (offset + ('{' :: inside ++ ['}']).length) rest := by
  have hclosing := closingFrom_of_level (by decide) (offset + 1)
    (hinside.level_eq (by decide) 0) rest
  have hlength : offset + 1 + inside.length + 1 - (offset + 1) = (inside ++ ['}']).length := by
    rw [List.length_append, List.length_singleton]
    omega
  have hsplit : inside ++ '}' :: rest = inside ++ ['}'] ++ rest := by simp
  rw [List.cons_append, returnTypeEndFrom_cons, if_pos rfl, if_pos hread,
    returnTypeEndFrom_succ, hclosing, Option.bind_some, hlength, hsplit, List.take_left,
    List.drop_left]
  congr 1
  · simp
  · simp
    omega

/-- The text of a type is passed over. -/
theorem returnTypeEndFrom_of_typeText (h : TypeText clause) (offset : Nat) (rest : List Char) :
    returnTypeEndFrom [] 0 offset (clause ++ rest) =
      returnTypeEndFrom clause.reverse 0 (offset + clause.length) rest := by
  induction h generalizing rest with
  | plain hgap => rw [returnTypeEndFrom_plain hgap, List.append_nil]
  | @block front inside gap hfront hinline hinside hgap ih =>
      have hread : endsInlineType front.reverse = true :=
        endsInlineType_iff.mpr (by rwa [List.reverse_reverse])
      have hsplit : front ++ '{' :: inside ++ '}' :: gap ++ rest =
          front ++ ('{' :: inside ++ '}' :: (gap ++ rest)) := by simp
      rw [hsplit, ih, returnTypeEndFrom_block hread hinside, returnTypeEndFrom_plain hgap]
      congr 1
      · simp
      · simp
        omega

/-- What the search has found stands behind the text of a type. -/
theorem exists_typeText_of_returnTypeEndFrom (hread : TypeText read.reverse)
    (h : returnTypeEndFrom read 0 offset rest = some opening) :
    ∃ more behind, rest = more ++ '{' :: behind ∧ TypeText (read.reverse ++ more) ∧
      ¬ EndsInline (read.reverse ++ more) ∧ opening = offset + more.length := by
  -- On the length of the rest, since a block is passed over as a whole.
  induction hlength : rest.length using Nat.strong_induction_on generalizing read offset rest with
  | _ n ih =>
      cases rest with
      | nil => contradiction
      | cons c rest =>
          -- What is passed over belongs to the type that was read.
          have hpass : ∀ passed rest', c :: rest = passed ++ rest' → passed ≠ [] →
              TypeText (read.reverse ++ passed) →
              returnTypeEndFrom (passed.reverse ++ read) 0 (offset + passed.length) rest' =
                some opening →
              ∃ more behind, c :: rest = more ++ '{' :: behind ∧ TypeText (read.reverse ++ more) ∧
                ¬ EndsInline (read.reverse ++ more) ∧ opening = offset + more.length := by
            intro passed rest' hsplit hne htype hfound
            have hshorter : rest'.length < n := by
              have hpos := List.length_pos_of_ne_nil hne
              rw [← hlength, hsplit, List.length_append]
              omega
            have hreverse : (passed.reverse ++ read).reverse = read.reverse ++ passed := by simp
            obtain ⟨more, behind, rfl, hmore, hends, rfl⟩ :=
              ih _ hshorter (hreverse ▸ htype) hfound rfl
            rw [hreverse, List.append_assoc] at hmore hends
            exact ⟨passed ++ more, behind, by rw [hsplit, List.append_assoc], hmore, hends,
              by rw [List.length_append, Nat.add_assoc]⟩
          have hcons := (returnTypeEndFrom_cons read offset c rest).symm.trans h
          split_ifs at hcons with hopen hinline hstop
          · subst hopen
            rw [returnTypeEndFrom_succ] at hcons
            obtain ⟨stop, hclosing, -⟩ := Option.bind_eq_some_iff.mp hcons
            obtain ⟨inside, behind, rfl, -, hlevel⟩ := exists_of_closingFrom hclosing
            have hinside := (balanced_iff_level (by decide)).mpr hlevel
            have hblock : TypeText (read.reverse ++ '{' :: inside ++ '}' :: []) :=
              .block hread (endsInlineType_iff.mp hinline) hinside (by simp [IsPlain])
            rw [List.append_assoc] at hblock
            exact hpass ('{' :: inside ++ ['}']) behind (by simp) (by simp) hblock
              ((returnTypeEndFrom_block hinline hinside offset behind).symm.trans h)
          · obtain rfl := Option.some.inj hcons
            refine ⟨[], rest, by rw [hopen]; rfl, by simpa using hread, ?_, by simp⟩
            rw [List.append_nil]
            exact mt endsInlineType_iff.mpr hinline
          · have hc : c ≠ '{' ∧ c ≠ ';' ∧ c ≠ '=' := by simpa [hopen] using hstop
            exact hpass [c] rest rfl (by simp) (hread.concat hc) hcons

/-- The search finds the brace behind the text of a type that does not end in a word of an inline
type, and no other brace. -/
theorem returnTypeEndFrom_eq_some_iff :
    returnTypeEndFrom [] 0 offset rest = some opening ↔
      ∃ clause behind, rest = clause ++ '{' :: behind ∧ TypeText clause ∧ ¬ EndsInline clause ∧
        opening = offset + clause.length := by
  constructor
  · exact exists_typeText_of_returnTypeEndFrom (.plain (by simp [IsPlain]))
  · rintro ⟨clause, behind, rfl, htype, hends, rfl⟩
    have hread : ¬ endsInlineType clause.reverse = true := by
      rwa [endsInlineType_iff, List.reverse_reverse]
    rw [returnTypeEndFrom_of_typeText htype, returnTypeEndFrom_cons, if_pos rfl, if_neg hread]

/-! ## The search by looks -/

/-- What comes of a look at the next brace, semicolon or equals sign behind a place. -/
inductive Look where
  /-- There is no body. -/
  | refused
  /-- The body opens at this brace. -/
  | body (opening : Nat)
  /-- The brace opens a block of the type, and the search goes on behind it. -/
  | further (place : Nat)
  deriving Repr, DecidableEq

/-- A look from a place in a return type that begins at `start`. -/
def look (text : List Char) (start place : Nat) : Look :=
  let gap := (text.drop place).takeWhile fun c => c != '{' && c != ';' && c != '='
  let brace := place + gap.length
  if text[brace]? = some '{' then
    if endsInlineType (Span.slice ⟨start, brace⟩ text).reverse then
      match Bracket.blockEndFrom (brace + 1) (text.drop (brace + 1)) with
      | some stop => .further stop
      | none => .refused
    else .body brace
  else .refused

/-- One look after the other, from a place on, comes to a result. -/
inductive Looks (text : List Char) (start : Nat) : (place : Nat) → Option Nat → Prop where
  | refused {place : Nat} (h : look text start place = .refused) : Looks text start place none
  | body {place opening : Nat} (h : look text start place = .body opening) :
      Looks text start place (some opening)
  | further {place next : Nat} {result : Option Nat} (h : look text start place = .further next)
      (hmore : Looks text start next result) : Looks text start place result

/-- A look that does not end the search gets further in the text. -/
theorem look_advances {start place next : Nat} (h : look text start place = .further next) :
    place < next ∧ next ≤ text.length := by
  rw [look] at h
  split_ifs at h with hbrace hinline
  split at h
  · rename_i stop hstop
    obtain rfl := Look.further.inj h
    obtain ⟨hlt, hle⟩ := closingFrom_bounds hstop
    rw [List.length_drop] at hle
    obtain ⟨hlength, -⟩ := List.getElem?_eq_some_iff.mp hbrace
    omega
  · contradiction

/-- The search, from a place of a text on. -/
def searchFrom (text : List Char) (start place : Nat) : Option Nat :=
  returnTypeEndFrom (Span.slice ⟨start, place⟩ text).reverse 0 place (text.drop place)

/-- What a search passes over first. -/
theorem searchFrom_append {start place : Nat} {passed : List Char} (hle : start ≤ place)
    (h : text.drop place = passed ++ rest) :
    searchFrom text start (place + passed.length) =
      returnTypeEndFrom (passed.reverse ++ (Span.slice ⟨start, place⟩ text).reverse) 0
        (place + passed.length) rest := by
  have hdrop : text.drop (place + passed.length) = rest := by
    rw [← List.drop_drop, h, List.drop_left]
  rw [searchFrom, Span.slice_add hle h, List.reverse_append, hdrop]

theorem searchFrom_plain {start place : Nat} (hle : start ≤ place) (hgap : IsPlain gap)
    (h : text.drop place = gap ++ rest) :
    searchFrom text start place = searchFrom text start (place + gap.length) := by
  rw [searchFrom_append hle h, searchFrom, h, returnTypeEndFrom_plain hgap]

/-- A search goes on behind a block of the type, or ends where the block is never closed. -/
theorem searchFrom_block {start place : Nat} (hle : start ≤ place)
    (h : text.drop place = '{' :: rest)
    (hread : endsInlineType (Span.slice ⟨start, place⟩ text).reverse = true) :
    searchFrom text start place =
      (Bracket.blockEndFrom (place + 1) rest).bind (searchFrom text start) := by
  cases hclosing : Bracket.blockEndFrom (place + 1) rest with
  | none =>
      rw [searchFrom, h, returnTypeEndFrom_cons, if_pos rfl, if_pos hread,
        returnTypeEndFrom_succ, ← Bracket.blockEndFrom, hclosing]
      rfl
  | some stop =>
      obtain ⟨inside, behind, rfl, rfl, hlevel⟩ := exists_of_closingFrom hclosing
      have hinside := (balanced_iff_level (by decide)).mpr hlevel
      have hsplit : text.drop place = ('{' :: inside ++ ['}']) ++ behind := by
        rw [h]
        simp
      have hstop : place + 1 + inside.length + 1 =
          place + ('{' :: inside ++ ['}']).length := by
        simp
        omega
      rw [Option.bind_some, hstop, searchFrom_append hle hsplit,
        ← returnTypeEndFrom_block hread hinside, searchFrom, h]
      rfl

/-- A look is a step of the search. -/
theorem searchFrom_eq {start place : Nat} (hle : start ≤ place) :
    searchFrom text start place = match look text start place with
      | .refused => none
      | .body opening => some opening
      | .further next => searchFrom text start next := by
  have hsplit := List.takeWhile_append_dropWhile
    (p := fun c => c != '{' && c != ';' && c != '=') (l := text.drop place)
  have hstop := List.head?_dropWhile_not (fun c => c != '{' && c != ';' && c != '=')
    (text.drop place)
  rw [look]
  generalize (text.drop place).dropWhile _ = rest at hsplit hstop
  generalize hpassed : (text.drop place).takeWhile _ = gap at hsplit ⊢
  have hgap : IsPlain gap := fun c hc => by
    rw [← hpassed] at hc
    simpa [and_assoc] using List.mem_takeWhile_imp hc
  -- The search gets to the next of the characters, or to the end of the text.
  rw [searchFrom_plain hle hgap hsplit.symm]
  have hdrop : text.drop (place + gap.length) = rest := by
    rw [← List.drop_drop, ← hsplit, List.drop_left]
  have hhead : text[place + gap.length]? = rest.head? := by
    rw [← hdrop, List.head?_drop]
  have hle' : start ≤ place + gap.length := Nat.le_add_right_of_le hle
  simp only [hhead]
  cases rest with
  | nil =>
      rw [searchFrom, hdrop]
      rfl
  | cons c rest =>
      have hbehind : text.drop (place + gap.length + 1) = rest := drop_succ hdrop
      rw [List.head?_cons]
      by_cases hopen : c = '{'
      · subst hopen
        rw [if_pos rfl, hbehind]
        split_ifs with hinline
        · rw [searchFrom_block hle' hdrop hinline]
          cases Bracket.blockEndFrom (place + gap.length + 1) rest <;> rfl
        · rw [searchFrom, hdrop, returnTypeEndFrom_cons, if_pos rfl, if_neg hinline]
      · have hother : c = ';' ∨ c = '=' := by simpa [hopen, or_iff_not_imp_left] using hstop
        rw [searchFrom, hdrop, returnTypeEndFrom_cons, if_neg hopen, if_pos (by simpa using hother),
          if_neg (by simpa using hopen)]

/-- What comes of the looks from a place on is told by the first of them. -/
theorem looks_iff_look {start place : Nat} {result : Option Nat} :
    Looks text start place result ↔ match look text start place with
      | .refused => none = result
      | .body opening => some opening = result
      | .further next => Looks text start next result := by
  constructor
  · rintro (h | h | ⟨h, hmore⟩) <;> simp only [h]
    exact hmore
  · intro h
    split at h
    · rename_i hlook
      exact h ▸ .refused hlook
    · rename_i hlook
      exact h ▸ .body hlook
    · rename_i hlook
      exact .further hlook h

/-- The looks come to an end, and to the result of the search. -/
theorem looks_iff {start place : Nat} (hle : start ≤ place) {result : Option Nat} :
    Looks text start place result ↔ searchFrom text start place = result := by
  -- On what is left of the text behind the place.
  induction hleft : text.length - place using Nat.strong_induction_on generalizing place with
  | _ n ih =>
      rw [looks_iff_look, searchFrom_eq hle]
      cases hlook : look text start place with
      | refused => rfl
      | body opening => rfl
      | further next =>
          obtain ⟨hlt, hnext⟩ := look_advances hlook
          exact ih _ (by omega) (hle.trans hlt.le) rfl

/-! ## What stands before a body -/

/-- What may stand, from an offset on, between the parameters of a function and its body: a return
type behind the word `returns`, or only white space. -/
inductive TailText (offset : Nat) : List Char → CallableTail → Prop where
  | returns {gap clause behind : List Char} {start : Nat}
      (hgap : ∀ x ∈ gap, Text.isBlank x = true)
      (hword : (clause ++ '{' :: behind).head?.any Text.isWord = false)
      (hclause : TypeText clause) (hends : ¬ EndsInline clause)
      (hstart : start = offset + gap.length + "returns".length) :
      TailText offset (gap ++ ("returns".toList ++ (clause ++ '{' :: behind)))
        ⟨some ⟨start, start + clause.length⟩, start + clause.length⟩
  | bare {gap behind : List Char} (hgap : ∀ x ∈ gap, Text.isBlank x = true) :
      TailText offset (gap ++ '{' :: behind) ⟨none, offset + gap.length⟩

/-- Behind the word, the search for the brace of the body begins. -/
theorem callableTail_of_behindReturns {type : List Char} (offset : Nat)
    (htrim : Text.trimLeft (gap ++ rest) = rest) (h : behindReturns? rest = some type) :
    callableTail? offset (gap ++ rest) =
      (returnTypeEndFrom [] 0 (offset + gap.length + "returns".length) type).map fun opening =>
        ⟨some ⟨offset + gap.length + "returns".length, opening⟩, opening⟩ := by
  have hlength : (gap ++ rest).length - rest.length = gap.length := by simp
  rw [callableTail?, htrim]
  simp only [h, hlength]

/-- Without the word, only white space may stand before the brace. -/
theorem callableTail_of_no_returns (offset : Nat)
    (htrim : Text.trimLeft (gap ++ rest) = rest) (h : behindReturns? rest = none) :
    callableTail? offset (gap ++ rest) =
      if rest.head? = some '{' then some ⟨none, offset + gap.length⟩ else none := by
  have hlength : (gap ++ rest).length - rest.length = gap.length := by simp
  rw [callableTail?, htrim]
  simp only [h, hlength]

/-- Behind the parameters of a function, a body is found exactly if it stands behind a return type
or behind white space. -/
theorem callableTail_eq_some_iff {found : CallableTail} :
    callableTail? offset rest = some found ↔ TailText offset rest found := by
  constructor
  · intro h
    obtain ⟨gap, hgap, hblank⟩ := Text.exists_trimLeft rest
    generalize hafter : Text.trimLeft rest = after at hgap
    subst hgap
    cases htype : behindReturns? after with
    | some type =>
        rw [callableTail_of_behindReturns offset hafter htype] at h
        obtain ⟨opening, hopening, rfl⟩ := Option.map_eq_some_iff.mp h
        obtain ⟨clause, behind, rfl, hclause, hends, rfl⟩ :=
          returnTypeEndFrom_eq_some_iff.mp hopening
        obtain ⟨rfl, hword⟩ := behindReturns_eq_some.mp htype
        exact .returns hblank hword hclause hends rfl
    | none =>
        rw [callableTail_of_no_returns offset hafter htype, Option.ite_none_right_eq_some] at h
        obtain ⟨hhead, hfound⟩ := h
        obtain ⟨behind, rfl⟩ := List.head?_eq_some_iff.mp hhead
        exact Option.some.inj hfound ▸ .bare hblank
  · intro h
    cases h with
    | @returns gap clause behind _ hgap hword hclause hends hstart =>
        subst hstart
        have htrim : Text.trimLeft (gap ++ ("returns".toList ++ (clause ++ '{' :: behind))) =
            "returns".toList ++ (clause ++ '{' :: behind) :=
          Text.trimLeft_blanks_cons hgap (by decide) _
        rw [callableTail_of_behindReturns offset htrim (behindReturns_eq_some.mpr ⟨rfl, hword⟩),
          returnTypeEndFrom_eq_some_iff.mpr ⟨clause, behind, rfl, hclause, hends, rfl⟩]
        rfl
    | bare hgap =>
        rw [callableTail_of_no_returns offset (Text.trimLeft_blanks_cons hgap (by decide) _) rfl]
        exact if_pos rfl

/-- What is found between the parameters of a function and its body is what may stand there; and
looks from where a return type begins always come to an end, with what the search for the brace
behind it finds. -/
theorem callableTail_of_grammar (text : List Char) (offset : Nat) :
    (∀ found, callableTail? offset (text.drop offset) = some found ↔
      TailText offset (text.drop offset) found) ∧
    ∀ start result, Looks text start start result ↔
      returnTypeEndFrom [] 0 start (text.drop start) = result := by
  refine ⟨fun found => callableTail_eq_some_iff, fun start result => ?_⟩
  have hempty : Span.slice ⟨start, start⟩ text = [] := by simp [Span.slice]
  rw [looks_iff le_rfl, searchFrom, hempty]
  rfl

end SourceChunks
