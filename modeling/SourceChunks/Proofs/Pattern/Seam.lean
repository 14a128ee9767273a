import Mathlib
import SourceChunks.Proofs.Pattern.Shift
import SourceChunks.Proofs.Text.Blank

/-!
# Patterns that stop at a semicolon

A pattern whose classes do not hold the semicolon never gets past the next one, and so
does not see what stands further on.  If it ends with a semicolon, it still does not see
what stands behind that.  This makes a search in two texts, of which the first ends with
a semicolon and white space, a search in each of them.

* `Pattern.Stays`: a pattern stays before the last semicolon of a first text.
* `Pattern.Local`: the ends of a pattern are the same whatever follows the first text.
* `stays_of_stops`, `local_of_stops`: the structure of a pattern shows either.
* `allMatches_append`: the matches in two texts, if the pattern is local where a match
  can begin.
* `suffix_of_found`: the semicolon is behind every match of a pattern that stays before it.
-/

namespace SourceChunks

variable {L : Type}

/-- A stretch of a text does not change with what follows the text. -/
theorem Span.slice_append {text : List Char} (more : List Char) (span : Span)
    (hstop : span.stop ≤ text.length) : span.slice (text ++ more) = span.slice text := by
  rw [slice, slice, List.drop_append, List.take_append, List.length_drop]
  rw [show span.stop - span.start - (text.length - span.start) = 0 by omega, List.take_zero,
    List.append_nil]

/-- The same place with more text at the end. -/
def Cursor.extend (more : List Char) (c : Cursor L) : Cursor L :=
  { c with rest := c.rest ++ more }

@[simp] theorem Cursor.extend_advance (more : List Char) (c : Cursor L) (x : Char) (rest : List Char) :
    (c.extend more).advance x (rest ++ more) = (c.advance x rest).extend more := rfl

namespace Pattern

variable {tail more : List Char}

/-- The ends of a pattern before a semicolon do not depend on what follows the text behind
that semicolon. -/
def Local (tail more : List Char) (p : Pattern L) : Prop :=
  ∀ c : Cursor L, ';' :: tail <:+ c.rest →
    ends p (c.extend more) = (ends p c).map (·.extend more)

/-- A pattern that begins before a semicolon also ends before it. -/
structure Stays (tail more : List Char) (p : Pattern L) : Prop where
  isLocal : Local tail more p
  stays : ∀ c : Cursor L, ';' :: tail <:+ c.rest → ∀ d ∈ ends p c, ';' :: tail <:+ d.rest

/-- Every end of a pattern is behind the place where it begins. -/
def Consumes (p : Pattern L) : Prop :=
  ∀ c : Cursor L, ∀ d ∈ ends p c, d.rest.length < c.rest.length

/-! ## Classes -/

/-- A place before a semicolon has a next character; if that is not the semicolon, the
place behind it is before the semicolon as well. -/
theorem exists_cons_of_suffix {text : List Char} (h : ';' :: tail <:+ text) :
    ∃ x rest, text = x :: rest ∧ (x ≠ ';' → ';' :: tail <:+ rest) := by
  obtain ⟨front, rfl⟩ := h
  cases front with
  | nil => exact ⟨';', tail, rfl, fun h => absurd rfl h⟩
  | cons x front => exact ⟨x, front ++ ';' :: tail, rfl, fun _ => ⟨front, rfl⟩⟩

theorem ends_one_extend {accepts : Char → Bool} {c : Cursor L} {x : Char} {rest : List Char}
    (hrest : c.rest = x :: rest) (more : List Char) :
    ends (one accepts) (c.extend more) = (ends (one accepts) c).map (·.extend more) := by
  have hextend : (c.extend more).rest = x :: (rest ++ more) := by
    show c.rest ++ more = _
    rw [hrest, List.cons_append]
  rw [ends_one_cons accepts hrest, ends_one_cons accepts hextend, Cursor.extend_advance]
  split_ifs
  · rfl
  · rfl

theorem local_one (accepts : Char → Bool) : (one (L := L) accepts).Local tail more := by
  intro c hc
  obtain ⟨x, rest, hrest, -⟩ := exists_cons_of_suffix hc
  exact ends_one_extend hrest more

theorem stays_one {accepts : Char → Bool} (h : accepts ';' = false) :
    (one (L := L) accepts).Stays tail more where
  isLocal := local_one accepts
  stays := by
    intro c hc d hd
    obtain ⟨x, rest, hrest, hx, rfl⟩ := mem_ends_one.mp hd
    obtain ⟨y, rest', hrest', hstays⟩ := exists_cons_of_suffix hc
    obtain ⟨rfl, rfl⟩ := List.cons.inj (hrest.symm.trans hrest')
    refine hstays ?_
    rintro rfl
    exact Bool.false_ne_true (h.symm.trans hx)

/-- A run that is stopped within a text does not see what follows the text. -/
theorem ends_run_extend {accepts : Char → Bool} {c : Cursor L} {text : List Char}
    (htext : c.rest = text) (hstop : ∃ x ∈ text, accepts x = false) :
    ends (run accepts) (c.extend more) = (ends (run accepts) c).map (·.extend more) := by
  induction text generalizing c with
  | nil => obtain ⟨x, hx, -⟩ := hstop; contradiction
  | cons x rest ih =>
      have hextend : (c.extend more).rest = x :: (rest ++ more) := by
        show c.rest ++ more = _
        rw [htext, List.cons_append]
      rw [ends_run_cons accepts htext, ends_run_cons accepts hextend, Cursor.extend_advance]
      by_cases hx : accepts x = true
      · rw [if_pos hx, if_pos hx, List.map_append]
        obtain ⟨y, hy, hyfalse⟩ := hstop
        have hmem : y ∈ rest := by
          rcases List.mem_cons.mp hy with rfl | hy
          · exact absurd (hx.symm.trans hyfalse) (by simp)
          · exact hy
        rw [ih rfl ⟨y, hmem, hyfalse⟩]
        rfl
      · rw [if_neg hx, if_neg hx]
        rfl

theorem stays_run {accepts : Char → Bool} (h : accepts ';' = false) :
    (run (L := L) accepts).Stays tail more where
  isLocal := fun _ hc => ends_run_extend rfl ⟨';', hc.subset List.mem_cons_self, h⟩
  stays := by
    intro c hc d hd
    have hsort : (run (L := L) accepts).Reads (· ≠ ';') := by
      rintro x hx rfl
      exact Bool.false_ne_true (h.symm.trans hx)
    obtain ⟨passed, hlead, hpassed⟩ := passes_of_mem_ends hsort hd
    obtain ⟨front, hfront⟩ := hc
    rw [hlead.rest_eq] at hfront
    -- If the run went past the semicolon, the semicolon would be among what it passed over.
    rcases List.append_eq_append_iff.mp hfront with ⟨gap, hgap, hrest⟩ | ⟨gap, hgap, hrest⟩
    · cases gap with
      | nil => exact ⟨[], hrest⟩
      | cons y gap =>
          obtain ⟨rfl, -⟩ := List.cons.inj hrest
          exact absurd rfl (hpassed ';' (by rw [hgap]; simp))
    · exact ⟨gap, hrest.symm⟩

/-! ## Combinations -/

theorem stays_empty : (empty : Pattern L).Stays tail more where
  isLocal := fun _ _ => rfl
  stays := by
    intro c hc d hd
    rwa [List.mem_singleton.mp hd]

theorem local_seq {p q : Pattern L} (hp : p.Stays tail more) (hq : q.Local tail more) :
    (p ++ q).Local tail more := by
  intro c hc
  rw [ends_seq, ends_seq, hp.isLocal c hc, List.flatMap_map, List.map_flatMap]
  exact List.flatMap_congr fun d hd => hq d (hp.stays c hc d hd)

theorem stays_seq {p q : Pattern L} (hp : p.Stays tail more) (hq : q.Stays tail more) :
    (p ++ q).Stays tail more where
  isLocal := local_seq hp hq.isLocal
  stays := by
    intro c hc d hd
    obtain ⟨e, he, hd⟩ := List.mem_flatMap.mp hd
    exact hq.stays e (hp.stays c hc e he) d hd

theorem local_either {p q : Pattern L} (hp : p.Local tail more) (hq : q.Local tail more) :
    (either p q).Local tail more := by
  intro c hc
  rw [ends, ends, hp c hc, hq c hc, List.map_append]

theorem stays_either {p q : Pattern L} (hp : p.Stays tail more) (hq : q.Stays tail more) :
    (either p q).Stays tail more where
  isLocal := local_either hp.isLocal hq.isLocal
  stays := by
    intro c hc d hd
    rcases List.mem_append.mp hd with hd | hd
    · exact hp.stays c hc d hd
    · exact hq.stays c hc d hd

theorem local_mark (label : L) {p : Pattern L} (hp : p.Local tail more) :
    (mark label p).Local tail more := by
  intro c hc
  rw [ends, ends, hp c hc, List.map_map, List.map_map]
  rfl

theorem stays_mark (label : L) {p : Pattern L} (hp : p.Stays tail more) :
    (mark label p).Stays tail more where
  isLocal := local_mark label hp.isLocal
  stays := by
    intro c hc d hd
    obtain ⟨e, he, rfl⟩ := List.mem_map.mp hd
    exact hp.stays c hc e he

theorem stays_test (test : Cursor L → Bool) {p : Pattern L}
    (hends : ∀ c, ends p c = if test c then [c] else [])
    (htest : ∀ c : Cursor L, ';' :: tail <:+ c.rest → test (c.extend more) = test c) :
    p.Stays tail more where
  isLocal := by
    intro c hc
    rw [hends, hends, htest c hc]
    split_ifs
    · rfl
    · rfl
  stays := by
    intro c hc d hd
    rw [hends] at hd
    rw [(eq_of_mem_ite hd).2]
    exact hc

theorem stays_edge : (edge : Pattern L).Stays tail more := by
  refine stays_test Cursor.atEdge (fun _ => rfl) fun c hc => ?_
  obtain ⟨x, rest, hrest, -⟩ := exists_cons_of_suffix hc
  have hextend : (c.extend more).rest = x :: (rest ++ more) := by
    show c.rest ++ more = _
    rw [hrest, List.cons_append]
  rw [Cursor.atEdge, Cursor.atEdge, hextend, hrest]
  rfl

theorem stays_lineStart : (lineStart : Pattern L).Stays tail more :=
  stays_test Cursor.atLineStart (fun _ => rfl) fun _ _ => rfl

theorem stays_ahead {p : Pattern L} (hp : p.Local tail more) : (ahead p).Stays tail more := by
  refine stays_test (fun c => !(ends p c).isEmpty) (fun c => ?_) fun c hc => ?_
  · rw [ends]
    cases (ends p c).isEmpty with
    | true => rfl
    | false => rfl
  · rw [hp c hc, List.isEmpty_map]

theorem stays_notAhead {p : Pattern L} (hp : p.Local tail more) :
    (notAhead p).Stays tail more := by
  refine stays_test (fun c => (ends p c).isEmpty) (fun _ => rfl) fun c hc => ?_
  rw [hp c hc, List.isEmpty_map]

/-- Rounds that consume something need no more fuel than there are characters left. -/
theorem roundEnds_fuel {step : Cursor L → List (Cursor L)}
    (hstep : ∀ c, ∀ d ∈ step c, d.rest.length < c.rest.length) {fuel fuel' : Nat} {c : Cursor L}
    (hfuel : c.rest.length ≤ fuel) (hfuel' : c.rest.length ≤ fuel') :
    roundEnds step fuel c = roundEnds step fuel' c := by
  -- Each round leaves less of the text, and where nothing is left there is no further round.
  induction fuel generalizing fuel' c with
  | zero =>
      have hnil : step c = [] := by
        refine List.eq_nil_iff_forall_not_mem.mpr fun d hd => ?_
        have hlt := hstep c d hd
        omega
      cases fuel' with
      | zero => rfl
      | succ fuel' =>
          rw [roundEnds, roundEnds, hnil]
          rfl
  | succ fuel ih =>
      cases fuel' with
      | zero =>
          have hnil : step c = [] := by
            refine List.eq_nil_iff_forall_not_mem.mpr fun d hd => ?_
            have hlt := hstep c d hd
            omega
          rw [roundEnds, roundEnds, hnil]
          rfl
      | succ fuel' =>
          rw [roundEnds, roundEnds]
          refine congrArg (· ++ [c]) (List.flatMap_congr fun d hd => ?_)
          have hlt := hstep c d hd
          exact ih (by omega) (by omega)

theorem roundEnds_extend {p : Pattern L} (hp : p.Stays tail more) (fuel : Nat) {c : Cursor L}
    (hc : ';' :: tail <:+ c.rest) :
    roundEnds (ends p) fuel (c.extend more) = (roundEnds (ends p) fuel c).map (·.extend more) := by
  induction fuel generalizing c with
  | zero => rfl
  | succ fuel ih =>
      rw [roundEnds, roundEnds, hp.isLocal c hc, List.flatMap_map, List.map_append,
        List.map_flatMap]
      refine congrArg (· ++ [c.extend more]) (List.flatMap_congr fun d hd => ?_)
      exact ih (hp.stays c hc d hd)

theorem stays_many {p : Pattern L} (hp : p.Stays tail more) (hconsumes : p.Consumes) :
    (many p).Stays tail more where
  isLocal := by
    intro c hc
    have hlength : (c.extend more).rest.length = c.rest.length + more.length :=
      List.length_append
    -- The longer text gives more fuel, which makes no difference.
    rw [ends, ends, hlength, roundEnds_extend hp _ hc,
      roundEnds_fuel hconsumes (Nat.le_add_right _ _) (le_refl _)]
  stays := by
    intro c hc d hd
    exact of_mem_roundEnds (R := fun c d => ';' :: tail <:+ c.rest → ';' :: tail <:+ d.rest)
      (fun _ h => h) (fun h h' hc => h' (h hc)) (fun c d hd hc => hp.stays c hc d hd) hd hc

/-! ## Progress -/

theorem rest_length_le {p : Pattern L} {c d : Cursor L} (hd : d ∈ ends p c) :
    d.rest.length ≤ c.rest.length := by
  obtain ⟨passed, hlead⟩ := leads_of_mem_ends hd
  rw [hlead.rest_eq, List.length_append]
  omega

theorem consumes_one (accepts : Char → Bool) : (one (L := L) accepts).Consumes := by
  intro c d hd
  obtain ⟨x, rest, hrest, -, rfl⟩ := mem_ends_one.mp hd
  rw [hrest]
  exact Nat.lt_succ_self rest.length

theorem consumes_seq_left {p q : Pattern L} (hp : p.Consumes) : (p ++ q).Consumes := by
  intro c d hd
  obtain ⟨e, he, hd⟩ := List.mem_flatMap.mp hd
  exact lt_of_le_of_lt (rest_length_le hd) (hp c e he)

theorem consumes_seq_right {p q : Pattern L} (hq : q.Consumes) : (p ++ q).Consumes := by
  intro c d hd
  obtain ⟨e, he, hd⟩ := List.mem_flatMap.mp hd
  exact lt_of_lt_of_le (hq e d hd) (rest_length_le he)

theorem consumes_either {p q : Pattern L} (hp : p.Consumes) (hq : q.Consumes) :
    (either p q).Consumes := by
  intro c d hd
  rcases List.mem_append.mp hd with hd | hd
  · exact hp c d hd
  · exact hq c d hd

theorem consumes_mark (label : L) {p : Pattern L} (hp : p.Consumes) :
    (mark label p).Consumes := by
  intro c d hd
  obtain ⟨e, he, rfl⟩ := List.mem_map.mp hd
  exact hp c e he

/-! ## What the structure of a pattern shows -/

/-- Whether it shows that every end is behind the place where the pattern begins. -/
def progresses : Pattern L → Bool
  | one _ => true
  | seq p q => progresses p || progresses q
  | either p q => progresses p && progresses q
  | mark _ p => progresses p
  | _ => false

theorem consumes_of_progresses {p : Pattern L} (h : p.progresses = true) : p.Consumes := by
  induction p with
  | one accepts => exact consumes_one accepts
  | seq p q ihp ihq =>
      rcases (Bool.or_eq_true_iff ..).mp h with hp | hq
      · exact consumes_seq_left (ihp hp)
      · exact consumes_seq_right (ihq hq)
  | either p q ihp ihq =>
      obtain ⟨hp, hq⟩ := Bool.and_eq_true_iff.mp h
      exact consumes_either (ihp hp) (ihq hq)
  | mark label p ih => exact consumes_mark label (ih h)
  | _ => contradiction

/-- Whether it shows that the pattern does not pass over a semicolon, or `late` only at its
end. -/
def stops : (late : Bool) → Pattern L → Bool
  | _, empty => true
  | late, one accepts => late || !accepts ';'
  | _, run accepts => !accepts ';'
  | late, seq p q => stops false p && stops late q
  | late, either p q => stops late p && stops late q
  | _, many p => stops false p && progresses p
  | late, mark _ p => stops late p
  | _, edge => true
  | _, lineStart => true
  | _, ahead p => stops true p
  | _, notAhead p => stops true p

theorem local_and_stays_of_stops {p : Pattern L} {late : Bool} (h : p.stops late = true) :
    p.Local tail more ∧ (late = false → p.Stays tail more) := by
  have hboth : ∀ {p : Pattern L} {late : Bool}, p.Stays tail more →
      p.Local tail more ∧ (late = false → p.Stays tail more) :=
    fun hp => ⟨hp.isLocal, fun _ => hp⟩
  induction p generalizing late with
  | empty => exact hboth stays_empty
  | one accepts =>
      refine ⟨local_one accepts, ?_⟩
      rintro rfl
      exact stays_one ((Bool.not_eq_true' _).mp h)
  | run accepts => exact hboth (stays_run ((Bool.not_eq_true' _).mp h))
  | seq p q ihp ihq =>
      obtain ⟨hp, hq⟩ := Bool.and_eq_true_iff.mp h
      have hstays := (ihp hp).2 rfl
      exact ⟨local_seq hstays (ihq hq).1, fun hlate => stays_seq hstays ((ihq hq).2 hlate)⟩
  | either p q ihp ihq =>
      obtain ⟨hp, hq⟩ := Bool.and_eq_true_iff.mp h
      exact ⟨local_either (ihp hp).1 (ihq hq).1,
        fun hlate => stays_either ((ihp hp).2 hlate) ((ihq hq).2 hlate)⟩
  | many p ih =>
      obtain ⟨hp, hprogresses⟩ := Bool.and_eq_true_iff.mp h
      exact hboth (stays_many ((ih hp).2 rfl) (consumes_of_progresses hprogresses))
  | mark label p ih =>
      exact ⟨local_mark label (ih h).1, fun hlate => stays_mark label ((ih h).2 hlate)⟩
  | edge => exact hboth stays_edge
  | lineStart => exact hboth stays_lineStart
  | ahead p ih => exact hboth (stays_ahead (ih h).1)
  | notAhead p ih => exact hboth (stays_notAhead (ih h).1)

theorem local_of_stops {p : Pattern L} (h : p.stops true = true) : p.Local tail more :=
  (local_and_stays_of_stops h).1

theorem stays_of_stops {p : Pattern L} (h : p.stops false = true) : p.Stays tail more :=
  (local_and_stays_of_stops h).2 rfl

/-! ## Searches -/

theorem matchAt_append {p : Pattern L} (hp : p.Local tail more) {rest : List Char}
    (hrest : ';' :: tail <:+ rest) (before : Option Char) (offset : Nat) :
    p.matchAt before offset (rest ++ more) = p.matchAt before offset rest := by
  have hends := hp ⟨before, rest, offset, []⟩ hrest
  rw [show (Cursor.extend more ⟨before, rest, offset, []⟩ : Cursor L) =
    ⟨before, rest ++ more, offset, []⟩ from rfl] at hends
  rw [matchAt_eq, matchAt_eq, hends, List.head?_map, Option.map_map]
  rfl

/-- A search in two texts is a search in each of them, if no match that begins in the first
one depends on the second. -/
theorem matchesFrom_append {p : Pattern L} {skip : Nat} {front text : List Char}
    (hmatch : ∀ passed rest, text = passed ++ rest → rest ≠ [] →
      p.matchAt (front ++ passed).getLast? (front ++ passed).length (rest ++ more) =
        p.matchAt (front ++ passed).getLast? (front ++ passed).length rest)
    (hskip : skip ≤ text.length) :
    p.matchesFrom skip front.getLast? front.length (text ++ more) =
      p.matchesFrom skip front.getLast? front.length text ++
        p.matchesFrom 0 (front ++ text).getLast? (front ++ text).length more := by
  -- Along the first text, with what was passed of it in front; a match ends in it, so that
  -- there is nothing left to skip behind it.
  induction text generalizing skip front with
  | nil =>
      obtain rfl : skip = 0 := Nat.le_zero.mp hskip
      rw [List.append_nil]
      rfl
  | cons c text ih =>
      have hsplit : front ++ c :: text = front ++ [c] ++ text := by simp
      have hnext : ∀ skip ≤ text.length,
          p.matchesFrom skip (some c) (front.length + 1) (text ++ more) =
            p.matchesFrom skip (some c) (front.length + 1) text ++
              p.matchesFrom 0 (front ++ c :: text).getLast? (front ++ c :: text).length more := by
        intro skip hskip
        have hbehind : ∀ passed rest, text = passed ++ rest → rest ≠ [] →
            p.matchAt (front ++ [c] ++ passed).getLast? (front ++ [c] ++ passed).length
                (rest ++ more) =
              p.matchAt (front ++ [c] ++ passed).getLast? (front ++ [c] ++ passed).length rest := by
          intro passed rest htext hrest
          rw [List.append_assoc, List.singleton_append]
          exact hmatch (c :: passed) rest (by rw [htext]; rfl) hrest
        have hfront := ih hbehind hskip
        rw [List.getLast?_concat, List.length_append, ← hsplit] at hfront
        exact hfront
      cases skip with
      | succ skip => exact hnext skip (Nat.le_of_succ_le_succ hskip)
      | zero =>
          have hhere := hmatch [] (c :: text) rfl (by simp)
          rw [List.append_nil] at hhere
          rw [List.cons_append, matchesFrom, matchesFrom, ← List.cons_append, hhere]
          cases hm : p.matchAt front.getLast? front.length (c :: text) with
          | none => exact hnext 0 (Nat.zero_le _)
          | some m =>
              rw [matchAt_eq] at hm
              obtain ⟨d, hd, rfl⟩ := Option.map_eq_some_iff.mp hm
              obtain ⟨passed, hlead⟩ := leads_of_mem_ends (List.mem_of_mem_head? hd)
              have hlength := congrArg List.length hlead.rest_eq
              have hoffset : d.offset = front.length + passed.length := hlead.offset_eq
              simp only [List.length_cons, List.length_append] at hlength
              exact congrArg _ (hnext _ (by show d.offset - front.length - 1 ≤ _; omega))

/-- Between two characters that are in no word there is no edge. -/
theorem atEdge_eq_false {c : Cursor L} (hbefore : c.before.any Text.isWord = false)
    (hrest : c.rest.head?.any Text.isWord = false) : c.atEdge = false := by
  rw [Cursor.atEdge, hbefore, hrest]
  rfl

/-- A pattern that begins at the edge of a word. -/
def AtEdge : Pattern L → Prop
  | edge => True
  | seq p _ => AtEdge p
  | _ => False

theorem ends_eq_nil_of_atEdge {p : Pattern L} (hp : p.AtEdge) {c : Cursor L}
    (hc : c.atEdge = false) : ends p c = [] := by
  induction p with
  | seq p q ihp _ => rw [ends, ihp hp, List.flatMap_nil]
  | edge => rw [ends, hc]; rfl
  | _ => exact absurd hp id

end Pattern

/-- A text ends with a semicolon and white space, of which the last character ends a line. -/
structure Seam (tail text : List Char) : Prop where
  suffix : ';' :: tail <:+ text
  blank : ∀ x ∈ tail, Text.isBlank x = true
  line : tail.getLast? = some '\n'

namespace Seam

variable {tail text : List Char}

theorem getLast (h : Seam tail text) : text.getLast? = some '\n' := by
  obtain ⟨front, rfl⟩ := h.suffix
  rw [List.getLast?_append, List.getLast?_cons, h.line]
  rfl

/-- A place in a text stands before the semicolon or in the white space behind it. -/
theorem place (h : Seam tail text) {passed rest : List Char} (htext : text = passed ++ rest) :
    ';' :: tail <:+ rest ∨
      (rest <:+ tail ∧ ∃ x, passed.getLast? = some x ∧ Text.isWord x = false) := by
  have hrest : rest <:+ text := ⟨passed, htext.symm⟩
  rcases List.suffix_or_suffix_of_suffix h.suffix hrest with hsuffix | hsuffix
  · exact .inl hsuffix
  · rcases List.suffix_cons_iff.mp hsuffix with rfl | hsuffix
    · exact .inl (List.suffix_refl _)
    · right
      obtain ⟨front, rfl⟩ := h.suffix
      obtain ⟨gap, rfl⟩ := hsuffix
      have hpassed : passed = front ++ ';' :: gap := by
        rw [← List.cons_append, ← List.append_assoc] at htext
        exact (List.append_cancel_right htext).symm
      refine ⟨⟨gap, rfl⟩, ?_⟩
      rw [hpassed, List.getLast?_append, List.getLast?_cons]
      refine ⟨gap.getLast?.getD ';', rfl, ?_⟩
      cases hgap : gap.getLast? with
      | none => decide
      | some x =>
          exact Text.isWord_of_isBlank
            (h.blank x (List.mem_append_left rest (List.mem_of_getLast? hgap)))

end Seam

namespace Pattern

variable {tail text more : List Char}

/-- The matches in two texts, of which the first ends with a semicolon and white space, are
those in each of them, if the pattern is local and finds nothing in that white space. -/
theorem allMatches_append (hseam : Seam tail text) {p : Pattern L} (hp : p.Local tail more)
    (hnone : ∀ before offset rest extra, (∀ x ∈ before, Text.isWord x = false) → rest ≠ [] →
      rest <:+ tail → p.matchAt before offset (rest ++ extra) = none) :
    p.allMatches (text ++ more) =
      p.allMatches text ++ (p.allMatches more).map (·.shift text.length) := by
  have hmatch : ∀ passed rest, text = passed ++ rest → rest ≠ [] →
      p.matchAt (([] : List Char) ++ passed).getLast? (([] : List Char) ++ passed).length
          (rest ++ more) =
        p.matchAt (([] : List Char) ++ passed).getLast? (([] : List Char) ++ passed).length rest := by
    intro passed rest htext hrest
    rw [List.nil_append]
    rcases hseam.place htext with hsuffix | ⟨hsuffix, x, hx, hword⟩
    · exact matchAt_append hp hsuffix _ _
    · have hbefore : ∀ y ∈ passed.getLast?, Text.isWord y = false := by
        rw [hx]
        rintro y hy
        rwa [← Option.some.inj hy]
      rw [hnone _ _ rest more hbefore hrest hsuffix]
      have hempty := hnone passed.getLast? passed.length rest [] hbefore hrest hsuffix
      rw [List.append_nil] at hempty
      exact hempty.symm
  have hsplit := matchesFrom_append hmatch (Nat.zero_le text.length)
  have hshift := matchesFrom_shift text.length p 0 none 0 more
  rw [Nat.zero_add] at hshift
  rw [List.nil_append, hseam.getLast] at hsplit
  rw [allMatches, allMatches, allMatches, ← hshift]
  exact hsplit

/-- In the white space behind the semicolon, no place is the edge of a word. -/
theorem ends_eq_nil_of_blank (hseam : Seam tail text) {p : Pattern L} (hedge : p.AtEdge)
    {before : Option Char} {rest : List Char} (hbefore : ∀ x ∈ before, Text.isWord x = false)
    (hne : rest ≠ []) (hrest : rest <:+ tail) (extra : List Char) (offset : Nat) :
    ends p ⟨before, rest ++ extra, offset, []⟩ = [] := by
  obtain ⟨x, rest, rfl⟩ := List.exists_cons_of_ne_nil hne
  have hx : Text.isWord x = false :=
    Text.isWord_of_isBlank (hseam.blank x (hrest.subset List.mem_cons_self))
  have hbefore' : before.any Text.isWord = false := by
    cases before with
    | none => rfl
    | some y => exact hbefore y rfl
  exact ends_eq_nil_of_atEdge hedge (atEdge_eq_false hbefore' hx)

/-- The same for a pattern that begins at the edge of a word. -/
theorem allMatches_append_of_atEdge (hseam : Seam tail text) {p : Pattern L}
    (hp : p.Local tail more) (hedge : p.AtEdge) :
    p.allMatches (text ++ more) =
      p.allMatches text ++ (p.allMatches more).map (·.shift text.length) := by
  refine allMatches_append hseam hp fun before offset rest extra hbefore hne hrest => ?_
  rw [matchAt_eq, ends_eq_nil_of_blank hseam hedge hbefore hne hrest]
  rfl

/-- A pattern that stays before the semicolon leaves it behind every match. -/
theorem suffix_of_found (hseam : Seam tail text) {p : Pattern L} (hp : p.Stays tail more)
    (hedge : p.AtEdge) {m : Match L} (hm : p.Found text m) :
    m.span.stop ≤ text.length ∧ ';' :: tail <:+ text.drop m.span.stop := by
  obtain ⟨front, rest, d, rfl, hne, hd, rfl⟩ := hm
  obtain ⟨passed, hlead⟩ := leads_of_mem_ends hd
  have hrest : rest = passed ++ d.rest := hlead.rest_eq
  have hoffset : d.offset = (front ++ passed).length := by
    rw [List.length_append]
    exact hlead.offset_eq
  have hdrop : (front ++ rest).drop d.offset = d.rest := by
    rw [hrest, ← List.append_assoc, hoffset, List.drop_left]
  constructor
  · show d.offset ≤ _
    rw [hoffset, hrest, ← List.append_assoc]
    exact (List.prefix_append _ _).length_le
  · show ';' :: tail <:+ (front ++ rest).drop d.offset
    rw [hdrop]
    -- A match that began behind the semicolon would begin in white space.
    rcases hseam.place rfl with hsuffix | ⟨hsuffix, x, hx, hword⟩
    · exact hp.stays _ hsuffix d hd
    · have hbefore : ∀ y ∈ front.getLast?, Text.isWord y = false := by
        rw [hx]
        rintro y hy
        rwa [← Option.some.inj hy]
      have hnil := ends_eq_nil_of_blank hseam hedge hbefore hne hsuffix [] front.length
      rw [List.append_nil] at hnil
      rw [hnil] at hd
      contradiction

/-- The matches in a region of a text do not depend on what follows the text. -/
theorem matchesIn_append (p : Pattern L) {text : List Char} {region : Span}
    (hle : region.start ≤ region.stop) (hstop : region.stop ≤ text.length) (more : List Char) :
    p.matchesIn (text ++ more) region = p.matchesIn text region := by
  rw [matchesIn, matchesIn, Span.slice_append more region hstop]
  split_ifs with hzero
  · rfl
  · rw [List.getElem?_append_left (by omega)]

end Pattern

end SourceChunks
