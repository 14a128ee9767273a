import Mathlib
import SourceChunks.Proofs.Declaration.Extent
import SourceChunks.Proofs.Pattern.Shift
import SourceChunks.Proofs.Source.Matching

/-!
# Offsets of the ends of declarations

The searches behind a header only count the characters they pass.  So behind some more
characters they find the same with all offsets shifted, and nothing they find is behind the
text.

* `callableParts_shift`, `statementEndFrom_shift`, `serviceOpening_shift`: what comes before
  a text only shifts the offsets.
* `callableParts_bounds`, `statementEndFrom_bounds`, `serviceOpening_bounds`: where in the text
  things are found.
* `StatementEnd`, `exists_of_statementEnd`: what ends a declaration without a value.
-/

namespace SourceChunks

/-! ## Shifted offsets -/

/-- The same parts behind `n` more characters. -/
def CallableTail.shift (n : Nat) (found : CallableTail) : CallableTail where
  returns := found.returns.map (·.shift n)
  opening := found.opening + n

/-- The same parts behind `n` more characters. -/
def CallableParts.shift (n : Nat) (parts : CallableParts) : CallableParts where
  parameters := parts.parameters.shift n
  tail := parts.tail.shift n
  stop := parts.stop + n

@[simp] theorem drop_shift (front text : List Char) (offset : Nat) :
    (front ++ text).drop (offset + front.length) = text.drop offset := by
  rw [Nat.add_comm, List.drop_length_add_append]

theorem closingFrom_shift (n : Nat) (opening closing : Char) (depth offset : Nat)
    (text : List Char) :
    Bracket.closingFrom opening closing depth (offset + n) text =
      (Bracket.closingFrom opening closing depth offset text).map (· + n) := by
  induction text generalizing depth offset with
  | nil => rfl
  | cons c text ih =>
      rw [closingFrom_cons, closingFrom_cons, Nat.add_right_comm]
      cases depthAfter? opening closing depth c with
      | none => rfl
      | some depth' => exact ih depth' (offset + 1)

theorem returnTypeEndFrom_shift (n : Nat) (read : List Char) (depth offset : Nat)
    (text : List Char) :
    returnTypeEndFrom read depth (offset + n) text =
      (returnTypeEndFrom read depth offset text).map (· + n) := by
  induction text generalizing read depth offset with
  | nil => cases depth <;> rfl
  | cons c text ih =>
      cases depth with
      | zero =>
          rw [returnTypeEndFrom, returnTypeEndFrom, Nat.add_right_comm, ih, ih]
          split_ifs
          · rfl
          · rfl
          · rfl
          · rfl
      | succ depth => rw [returnTypeEndFrom, returnTypeEndFrom, Nat.add_right_comm, ih]

@[simp] theorem callableTail_shift (n offset : Nat) (text : List Char) :
    callableTail? (offset + n) text = (callableTail? offset text).map (·.shift n) := by
  have hplace : ∀ gap, offset + n + gap = offset + gap + n := fun gap => Nat.add_right_comm _ _ _
  rw [callableTail?, callableTail?]
  simp only [hplace]
  cases behindReturns? (Text.trimLeft text) with
  | some type =>
      simp only
      rw [Nat.add_right_comm _ n, returnTypeEndFrom_shift, Option.map_map, Option.map_map]
      rfl
  | none =>
      simp only
      split_ifs
      · rfl
      · rfl

/-- The parts of a function behind some more characters. -/
theorem callableParts_shift (front text : List Char) (start : Nat) :
    callableParts (front ++ text) (start + front.length) =
      (callableParts text start).map (·.shift front.length) := by
  rw [callableParts, callableParts, drop_shift, closingFrom_shift]
  cases hbehind : Bracket.closingFrom '(' ')' 0 start (text.drop start) with
  | none => rfl
  | some behind =>
      obtain ⟨hlt, -⟩ := closingFrom_bounds hbehind
      have hparameters : behind + front.length - 1 = behind - 1 + front.length := by omega
      simp only [Option.map_some]
      rw [drop_shift, callableTail_shift, hparameters]
      cases callableTail? behind (text.drop behind) with
      | none => rfl
      | some found =>
          have hopening : (found.shift front.length).opening + 1 =
              found.opening + 1 + front.length := Nat.add_right_comm _ _ _
          simp only [Option.map_some]
          rw [hopening, drop_shift, Bracket.blockEndFrom, Bracket.blockEndFrom, closingFrom_shift]
          cases Bracket.closingFrom '{' '}' 0 (found.opening + 1)
              (text.drop (found.opening + 1)) with
          | none => rfl
          | some stop => rfl

@[simp] theorem behindSemicolon_shift (n offset : Nat) (text : List Char) :
    Locate.behindSemicolon (offset + n) text = Locate.behindSemicolon offset text + n := by
  rw [Locate.behindSemicolon, Locate.behindSemicolon]
  split_ifs
  · omega
  · rfl

theorem statementEndFrom_shift (n offset : Nat) (text : List Char) :
    Locate.statementEndFrom (offset + n) text =
      (Locate.statementEndFrom offset text).map (· + n) := by
  induction text generalizing offset with
  | nil => rfl
  | cons c text ih =>
      rw [Locate.statementEndFrom, Locate.statementEndFrom, Nat.add_right_comm, ih,
        Bracket.blockEndFrom, Bracket.blockEndFrom, closingFrom_shift, Option.map_map]
      split_ifs
      · rfl
      · rw [Option.map_map]
        refine congrArg (Option.map · _) (funext fun stop => ?_)
        rw [Function.comp_apply, Function.comp_apply, behindSemicolon_shift, Nat.add_sub_add_right]
      · rfl

theorem blockStartFrom_shift (n depth offset : Nat) (text : List Char) :
    Bracket.blockStartFrom depth (offset + n) text =
      (Bracket.blockStartFrom depth offset text).map (· + n) := by
  induction text generalizing depth offset with
  | nil => rfl
  | cons c text ih =>
      rw [Bracket.blockStartFrom, Bracket.blockStartFrom, Nat.add_right_comm, ih, ih, ih]
      split_ifs
      · rfl
      · rfl
      · rfl
      · rfl
      · rfl

/-- The brace that opens the body of a service, behind some more characters. -/
theorem serviceOpening_shift (front text : List Char) (m : Match Part) :
    Locate.serviceOpening? (front ++ text) (m.shift front.length) =
      (Locate.serviceOpening? text m).map (· + front.length) := by
  have hstop : (m.shift front.length).span.stop = m.span.stop + front.length := rfl
  rw [Locate.serviceOpening?, Locate.serviceOpening?, hstop, drop_shift, Match.hasPart_shift,
    blockStartFrom_shift]
  split_ifs
  · rfl
  · simp only
    split_ifs
    · rw [Option.map_some, Nat.add_right_comm]
    · rfl

/-! ## Bounds -/

/-- The brackets behind the header of a function: the parenthesis that closes its parameters,
the brace that opens its body, and the one that closes it. -/
theorem exists_of_callableParts {text : List Char} {start : Nat} {parts : CallableParts}
    (h : callableParts text start = .ok parts) :
    ∃ behind front body, Bracket.closingFrom '(' ')' 0 start (text.drop start) = some behind ∧
      callableTail? behind (text.drop behind) = some parts.tail ∧
      text = front ++ '{' :: body ∧ front.length = parts.tail.opening ∧
      Bracket.blockEndFrom (parts.tail.opening + 1) body = some parts.stop ∧
      parts.parameters = ⟨start, behind - 1⟩ ∧ behind ≤ parts.tail.opening := by
  unfold callableParts at h
  cases hbehind : Bracket.closingFrom '(' ')' 0 start (text.drop start) with
  | none => rw [hbehind] at h; contradiction
  | some behind =>
      rw [hbehind] at h
      simp only at h
      cases htail : callableTail? behind (text.drop behind) with
      | none => rw [htail] at h; contradiction
      | some found =>
          rw [htail] at h
          simp only at h
          obtain ⟨gap, body, hbody, hopening, -⟩ := exists_of_callableTail htail
          obtain ⟨hbehind', hle⟩ := drop_behind hbody
          rw [← hopening] at hbehind' hle
          rw [hbehind'] at h
          cases hstop : Bracket.blockEndFrom (found.opening + 1) body with
          | none => rw [hstop] at h; contradiction
          | some stop =>
              rw [hstop] at h
              obtain rfl := Except.ok.inj h
              refine ⟨behind, text.take behind ++ gap, body, rfl, htail, ?_, ?_, hstop, rfl, ?_⟩
              · rw [List.append_assoc, ← hbody, List.take_append_drop]
              · rw [List.length_append, List.length_take_of_le (by omega)]
                exact hopening.symm
              · show behind ≤ found.opening
                omega

theorem callableParts_bounds {text : List Char} {start : Nat} {parts : CallableParts}
    (h : callableParts text start = .ok parts) :
    parts.parameters.stop ≤ text.length ∧ (∀ returns ∈ parts.tail.returns, returns.stop ≤ text.length) ∧
      parts.tail.opening < text.length ∧ parts.stop ≤ text.length := by
  obtain ⟨behind, front, body, hbehind, htail, rfl, hfront, hstop, hparameters, hle⟩ :=
    exists_of_callableParts h
  obtain ⟨gap, more, -, -, hreturns⟩ := exists_of_callableTail htail
  obtain ⟨-, hend⟩ := closingFrom_bounds hstop
  have hlength : (front ++ '{' :: body).length = front.length + (body.length + 1) := by simp
  refine ⟨?_, fun returns h => ?_, ?_, ?_⟩
  · rw [hparameters]
    show behind - 1 ≤ _
    omega
  · rw [hreturns returns h]
    omega
  · omega
  · omega

theorem behindSemicolon_cases (offset : Nat) (rest : List Char) :
    Locate.behindSemicolon offset rest = offset ∨
      ∃ blank behind, rest = blank ++ ';' :: behind ∧ (∀ x ∈ blank, Text.isBlank x = true) ∧
        Locate.behindSemicolon offset rest = offset + blank.length + 1 := by
  rw [Locate.behindSemicolon]
  split_ifs with hhead
  · obtain ⟨behind, hafter⟩ := List.head?_eq_some_iff.mp hhead
    obtain ⟨blank, hrest, hblank⟩ := Text.exists_trimLeft rest
    have hlength := congrArg List.length hrest
    rw [List.length_append] at hlength
    exact .inr ⟨blank, behind, by rw [← hafter]; exact hrest, hblank, by omega⟩
  · exact .inl rfl

/-- What ends a declaration: a semicolon, or a block and possibly a semicolon behind it. -/
inductive StatementEnd : List Char → Prop
  | semicolon : StatementEnd [';']
  | block {inside : List Char} (hinside : Balanced '{' '}' inside) :
      StatementEnd ('{' :: (inside ++ ['}']))
  | blockSemicolon {inside blank : List Char} (hinside : Balanced '{' '}' inside)
      (hblank : ∀ x ∈ blank, Text.isBlank x = true) :
      StatementEnd ('{' :: (inside ++ '}' :: (blank ++ [';'])))

theorem StatementEnd.length_pos {ending : List Char} (h : StatementEnd ending) :
    0 < ending.length := by
  cases h <;> exact Nat.succ_pos _

/-- The end of a statement is the first semicolon, or the first block with what is in it. -/
theorem exists_of_statementEnd {offset stop : Nat} {rest : List Char}
    (h : Locate.statementEndFrom offset rest = some stop) :
    ∃ gap ending behind, rest = gap ++ (ending ++ behind) ∧ '{' ∉ gap ∧ ';' ∉ gap ∧
      StatementEnd ending ∧ stop = offset + gap.length + ending.length := by
  induction rest generalizing offset with
  | nil => contradiction
  | cons c rest ih =>
      unfold Locate.statementEndFrom at h
      split_ifs at h with hsemicolon hbrace
      · subst hsemicolon
        exact ⟨[], [';'], rest, rfl, List.not_mem_nil, List.not_mem_nil, .semicolon,
          (Option.some.inj h).symm⟩
      · subst hbrace
        obtain ⟨inner, hinner, rfl⟩ := Option.map_eq_some_iff.mp h
        obtain ⟨inside, behind, rfl, rfl, hlevel⟩ := exists_of_closingFrom hinner
        have hinside := (balanced_iff_level (by decide)).mpr hlevel
        have hbehind : (inside ++ '}' :: behind).drop
            (offset + 1 + inside.length + 1 - (offset + 1)) = behind := by
          rw [show offset + 1 + inside.length + 1 - (offset + 1) = inside.length + 1 by omega,
            ← List.drop_drop, List.drop_left]
          rfl
        rw [hbehind]
        rcases behindSemicolon_cases (offset + 1 + inside.length + 1) behind with
          hstop | ⟨blank, after, rfl, hblank, hstop⟩
        · refine ⟨[], _, behind, ?_, List.not_mem_nil, List.not_mem_nil, .block hinside, ?_⟩
          · simp
          · simp only [hstop, List.length_nil, List.length_cons, List.length_append]
            omega
        · refine ⟨[], _, after, ?_, List.not_mem_nil, List.not_mem_nil,
            .blockSemicolon hinside hblank, ?_⟩
          · simp
          · simp only [hstop, List.length_nil, List.length_cons, List.length_append]
            omega
      · obtain ⟨gap, ending, behind, rfl, hopen, hno, hending, rfl⟩ := ih h
        refine ⟨c :: gap, ending, behind, rfl, ?_, ?_, hending, by rw [List.length_cons]; omega⟩
        · exact List.mem_cons.not.mpr (not_or.mpr ⟨Ne.symm hbrace, hopen⟩)
        · exact List.mem_cons.not.mpr (not_or.mpr ⟨Ne.symm hsemicolon, hno⟩)

theorem statementEndFrom_bounds {offset stop : Nat} {rest : List Char}
    (h : Locate.statementEndFrom offset rest = some stop) :
    offset < stop ∧ stop ≤ offset + rest.length := by
  obtain ⟨gap, ending, behind, rfl, -, -, hending, rfl⟩ := exists_of_statementEnd h
  have hpos := hending.length_pos
  simp only [List.length_append]
  constructor <;> omega

theorem serviceOpening_bounds {text : List Char} {m : Match Part} {opening : Nat}
    (hm : m.span.stop ≤ text.length) (h : Locate.serviceOpening? text m = some opening) :
    ∃ gap more, text.drop m.span.stop = gap ++ '{' :: more ∧
      opening = m.span.stop + gap.length := by
  have hsplit := (List.take_append_drop m.span.stop text).symm
  have hlength : (text.take m.span.stop).length = m.span.stop := List.length_take_of_le hm
  obtain ⟨gap, more, hdrop, hopening, -⟩ := Locate.exists_of_serviceOpening hsplit hlength h
  exact ⟨gap, more, hdrop, by rw [hopening, hlength]⟩

end SourceChunks
