import Mathlib
import SourceChunks.Proofs.Pattern.Seam
import SourceChunks.Proofs.Source.Widened

/-!
# Patterns and wide line ends

In a text with wide line ends, a pattern may also end between the two characters of a line end,
where there is no place in the text with line feeds.  If none of its continuations takes up
there, its other ends are the places to which those in the text with line feeds have moved.
Whether a pattern is such can be told from its structure.

* `Cursor.Aligned`, `Cursor.Halfway`: the two sorts of places in a text with wide line ends.
* `Kept`: the ends of a pattern in two such texts.
* `Pattern.crossing`: what the structure of a pattern shows of it at line ends.
* `crosses_crossing`: it shows the truth.
* `matchesFrom_widened`, `matchesIn_widened`: matches move with the text.
-/

namespace SourceChunks

variable {L : Type} {φ : Nat → Nat}

/-! ## Places -/

/-- The marked parts, at the offsets to which they have moved. -/
def placeMarks (φ : Nat → Nat) (marks : List (L × Span)) : List (L × Span) :=
  marks.map fun (label, span) => (label, span.place φ)

/-- The same match in the text with wide line ends. -/
def Match.place (φ : Nat → Nat) (m : Match L) : Match L where
  span := m.span.place φ
  marks := placeMarks φ m.marks

namespace Match

variable [DecidableEq L]

@[simp] theorem part_place (m : Match L) (label : L) :
    (m.place φ).part? label = (m.part? label).map (Span.place φ) := by
  rw [part?, part?, place, placeMarks, List.find?_map, Option.map_map, Option.map_map]
  rfl

@[simp] theorem parts_place (m : Match L) (label : L) :
    (m.place φ).parts label = (m.parts label).map (Span.place φ) := by
  rw [parts, parts, place, placeMarks, List.filter_map, ← List.map_reverse, List.map_map,
    List.map_map]
  rfl

@[simp] theorem hasPart_place (m : Match L) (label : L) :
    (m.place φ).hasPart label = m.hasPart label := by
  rw [hasPart, hasPart, part_place, Option.isSome_map]

end Match

namespace Cursor

/-- A place in the text with wide line ends is the one to which a place has moved. -/
structure Aligned (φ : Nat → Nat) (c c' : Cursor L) : Prop where
  before_eq : c'.before = c.before
  rest : Widened φ c.offset c.rest c'.rest
  offset_eq : c'.offset = φ c.offset
  marks_eq : c'.marks = placeMarks φ c.marks

/-- A place is between the two characters of a wide line end. -/
structure Halfway (c : Cursor L) : Prop where
  before : ∃ b, IsFiller b ∧ c.before = some b
  rest : ∃ rest, c.rest = '\n' :: rest

theorem Aligned.not_halfway {c c' : Cursor L} (h : Aligned φ c c') : ¬ Halfway c' := by
  rintro ⟨-, rest, hrest⟩
  have hwide := h.rest
  rw [hrest] at hwide
  generalize c.rest = s at hwide
  cases hwide with
  | plain hc hφ h => exact hc rfl
  | newline hb hφ h => exact absurd hb (by unfold IsFiller; decide)

theorem Aligned.withMark {c c' d d' : Cursor L} (h : Aligned φ c c') (h' : Aligned φ d d')
    (label : L) : Aligned φ (d.withMark label c.offset) (d'.withMark label c'.offset) where
  before_eq := h'.before_eq
  rest := h'.rest
  offset_eq := h'.offset_eq
  marks_eq := by
    rw [Cursor.withMark, Cursor.withMark, h'.marks_eq, h.offset_eq, h'.offset_eq]
    rfl

theorem Halfway.withMark {c : Cursor L} (h : Halfway c) (label : L) (start : Nat) :
    Halfway (c.withMark label start) :=
  ⟨h.before, h.rest⟩

theorem Aligned.atEdge_eq {c c' : Cursor L} (h : Aligned φ c c') : c'.atEdge = c.atEdge := by
  rw [atEdge, atEdge, h.before_eq, h.rest.alike.head_isWord]

theorem Aligned.atLineStart_eq {c c' : Cursor L} (h : Aligned φ c c') :
    c'.atLineStart = c.atLineStart := by
  rw [atLineStart, atLineStart, h.before_eq]

theorem Halfway.atEdge_eq {c : Cursor L} (h : Halfway c) : c.atEdge = false := by
  obtain ⟨⟨b, hb, hbefore⟩, rest, hrest⟩ := h
  rw [atEdge, hbefore, hrest]
  show (Text.isWord b != Text.isWord '\n') = false
  rw [Text.isWord_of_isBlank hb.isBlank]
  rfl

theorem Halfway.atLineStart_eq {c : Cursor L} (h : Halfway c) : c.atLineStart = false := by
  obtain ⟨⟨b, hb, hbefore⟩, -⟩ := h
  rw [atLineStart, hbefore]
  rcases hb with rfl | rfl
  · rfl
  · rfl

/-- What follows two aligned places: nothing, the same character, or a line end. -/
inductive Follows (φ : Nat → Nat) (c c' : Cursor L) : Prop
  | nothing (hrest : c.rest = []) (hrest' : c'.rest = [])
  | plain (x : Char) (s s' : List Char) (hrest : c.rest = x :: s) (hrest' : c'.rest = x :: s')
      (hnext : Aligned φ (c.advance x s) (c'.advance x s'))
  | newline (b : Char) (s s' : List Char) (hb : IsFiller b) (hrest : c.rest = '\n' :: s)
      (hrest' : c'.rest = b :: '\n' :: s')
      (hnext : Aligned φ (c.advance '\n' s) ((c'.advance b ('\n' :: s')).advance '\n' s'))

theorem Aligned.follows {c c' : Cursor L} (h : Aligned φ c c') : Follows φ c c' := by
  have hwide := h.rest
  have hoffset := h.offset_eq
  generalize hrest : c.rest = s at hwide
  generalize hrest' : c'.rest = s' at hwide
  cases hwide with
  | nil => exact .nothing hrest hrest'
  | plain hc hstep hwide =>
      refine .plain _ _ _ hrest hrest' ⟨rfl, hwide, ?_, h.marks_eq⟩
      show c'.offset + 1 = φ (c.offset + 1)
      omega
  | newline hb hstep hwide =>
      refine .newline _ _ _ hb hrest hrest' ⟨rfl, hwide, ?_, h.marks_eq⟩
      show c'.offset + 1 + 1 = φ (c.offset + 1)
      omega

/-- Behind the filler of a line end, the place is halfway. -/
theorem halfway_advance (c : Cursor L) {b : Char} (hb : IsFiller b) (s : List Char) :
    Halfway (c.advance b ('\n' :: s)) :=
  ⟨⟨b, hb, rfl⟩, s, rfl⟩

end Cursor

open Cursor

/-- The second list holds the places to which those of the first one have moved, in the same
order, and besides these only places halfway through a line end. -/
inductive Kept (φ : Nat → Nat) : List (Cursor L) → List (Cursor L) → Prop
  | nil : Kept φ [] []
  | aligned {d d' : Cursor L} {ds ds' : List (Cursor L)} (hd : Aligned φ d d') (h : Kept φ ds ds') :
      Kept φ (d :: ds) (d' :: ds')
  | halfway {d' : Cursor L} {ds ds' : List (Cursor L)} (hd : Halfway d') (h : Kept φ ds ds') :
      Kept φ ds (d' :: ds')

namespace Kept

variable {ds ds' es es' : List (Cursor L)}

theorem singleton {d d' : Cursor L} (hd : Aligned φ d d') : Kept φ [d] [d'] :=
  .aligned hd .nil

theorem append (h : Kept φ ds ds') (h' : Kept φ es es') : Kept φ (ds ++ es) (ds' ++ es') := by
  induction h with
  | nil => exact h'
  | aligned hd h ih => exact .aligned hd ih
  | halfway hd h ih => exact .halfway hd ih

theorem of_halfway (h : ∀ d' ∈ ds', Halfway d') : Kept φ [] ds' := by
  induction ds' with
  | nil => exact .nil
  | cons d' ds' ih =>
      obtain ⟨hd, h⟩ := List.forall_mem_cons.mp h
      exact .halfway hd (ih h)

/-- Places that are left on the way to further ones. -/
theorem flatMap (h : Kept φ ds ds') {next : Cursor L → List (Cursor L)}
    {next' : Cursor L → List (Cursor L)}
    (hnext : ∀ d d', Aligned φ d d' → Kept φ (next d) (next' d'))
    (hhalfway : ∀ d' ∈ ds', Halfway d' → ∀ e' ∈ next' d', Halfway e') :
    Kept φ (ds.flatMap next) (ds'.flatMap next') := by
  induction h with
  | nil => exact .nil
  | aligned hd h ih =>
      obtain ⟨-, hhalfway⟩ := List.forall_mem_cons.mp hhalfway
      rw [List.flatMap_cons, List.flatMap_cons]
      exact (hnext _ _ hd).append (ih hhalfway)
  | halfway hd h ih =>
      obtain ⟨hhere, hhalfway⟩ := List.forall_mem_cons.mp hhalfway
      rw [List.flatMap_cons, ← List.nil_append (List.flatMap _ _)]
      exact (of_halfway (hhere hd)).append (ih hhalfway)

theorem map (h : Kept φ ds ds') {next next' : Cursor L → Cursor L}
    (hnext : ∀ d d', Aligned φ d d' → Aligned φ (next d) (next' d'))
    (hhalfway : ∀ d', Halfway d' → Halfway (next' d')) : Kept φ (ds.map next) (ds'.map next') := by
  induction h with
  | nil => exact .nil
  | aligned hd h ih => exact .aligned (hnext _ _ hd) ih
  | halfway hd h ih => exact .halfway (hhalfway _ hd) ih

theorem aligned_or_halfway (h : Kept φ ds ds') :
    ∀ d' ∈ ds', (∃ d, Aligned φ d d') ∨ Halfway d' := by
  induction h with
  | nil => simp
  | aligned hd h ih => exact List.forall_mem_cons.mpr ⟨.inl ⟨_, hd⟩, ih⟩
  | halfway hd h ih => exact List.forall_mem_cons.mpr ⟨.inr hd, ih⟩

/-- Where no place is halfway, the places are aligned one by one. -/
theorem forall₂ (h : Kept φ ds ds') (hclean : ∀ d' ∈ ds', ¬ Halfway d') :
    List.Forall₂ (Aligned φ) ds ds' := by
  induction h with
  | nil => exact .nil
  | aligned hd h ih => exact .cons hd (ih (List.forall_mem_cons.mp hclean).2)
  | halfway hd h ih => exact absurd hd (List.forall_mem_cons.mp hclean).1

end Kept

/-! ## What the structure of a pattern shows -/

/-- What is known of a pattern at wide line ends. -/
structure Crossing where
  /-- It does not begin halfway. -/
  refuses : Bool
  /-- From halfway, it leads at most to places halfway. -/
  stays : Bool
  /-- It ends halfway only if it begins there. -/
  clean : Bool
  /-- Its ends that are not halfway move with the text. -/
  faithful : Bool

/-- A pattern has the properties that are known of it. -/
structure Crosses (φ : Nat → Nat) (known : Crossing) (p : Pattern L) : Prop where
  refuses : known.refuses = true → ∀ c', Halfway c' → p.ends c' = []
  stays : known.stays = true → ∀ c', Halfway c' → ∀ d' ∈ p.ends c', Halfway d'
  clean : known.clean = true → ∀ c c', Aligned φ c c' → ∀ d' ∈ p.ends c', ¬ Halfway d'
  faithful : known.faithful = true → ∀ c c', Aligned φ c c' → Kept φ (p.ends c) (p.ends c')

namespace Pattern

/-- Whether a pattern is a class that holds all characters of wide line ends, or none. -/
def isLevel : Pattern L → Bool
  | one accepts => accepts ' ' == accepts '\n' && accepts '\r' == accepts '\n'
  | _ => false

/-- Whether two patterns in a row are classes that hold all characters of wide line ends. -/
def isWideRun : Pattern L → Pattern L → Bool
  | one accepts, run accepts' =>
      [' ', '\r', '\n'].all accepts && [' ', '\r', '\n'].all accepts'
  | _, _ => false

/-- What the structure of a pattern shows of it at wide line ends. -/
def crossing : Pattern L → Crossing
  | empty => ⟨false, true, true, true⟩
  | one accepts =>
      ⟨!accepts '\n', !accepts '\n', !accepts ' ' && !accepts '\r', !accepts '\n'⟩
  | run accepts =>
      ⟨false, !accepts '\n', !accepts ' ' && !accepts '\r',
        !accepts '\n' || accepts ' ' && accepts '\r'⟩
  | seq p q =>
      ⟨p.crossing.refuses || p.crossing.stays && q.crossing.refuses,
        p.crossing.refuses || p.crossing.stays && q.crossing.stays,
        p.crossing.faithful && q.crossing.clean && (p.crossing.clean || q.crossing.refuses),
        isWideRun p q ||
          p.crossing.faithful && q.crossing.faithful && (p.crossing.clean || q.crossing.stays)⟩
  | either p q =>
      ⟨p.crossing.refuses && q.crossing.refuses, p.crossing.stays && q.crossing.stays,
        p.crossing.clean && q.crossing.clean, p.crossing.faithful && q.crossing.faithful⟩
  | many p =>
      ⟨false, p.crossing.stays, p.crossing.faithful && p.crossing.clean,
        p.crossing.faithful && p.progresses && (p.crossing.clean || p.crossing.stays)⟩
  | mark _ p => p.crossing
  | edge => ⟨true, true, true, true⟩
  | lineStart => ⟨true, true, true, true⟩
  | ahead p => ⟨p.crossing.refuses, true, true, p.isLevel || p.crossing.faithful && p.crossing.clean⟩
  | notAhead p => ⟨false, true, true, p.isLevel || p.crossing.faithful && p.crossing.clean⟩

/-! ### Classes -/

theorem crosses_empty : Crosses φ (empty : Pattern L).crossing (empty : Pattern L) where
  refuses := nofun
  stays := fun _ _ hc' _ hd' => List.mem_singleton.mp hd' ▸ hc'
  clean := fun _ _ _ h _ hd' => List.mem_singleton.mp hd' ▸ h.not_halfway
  faithful := fun _ _ _ h => .singleton h

theorem ends_one_of_halfway {accepts : Char → Bool} (hnewline : accepts '\n' = false)
    {c : Cursor L} (hc : Halfway c) : ends (one accepts) c = [] := by
  obtain ⟨rest, hrest⟩ := hc.rest
  simp [ends_one_cons accepts hrest, hnewline]

theorem ends_run_of_halfway {accepts : Char → Bool} (hnewline : accepts '\n' = false)
    {c : Cursor L} (hc : Halfway c) : ends (run accepts) c = [c] := by
  obtain ⟨rest, hrest⟩ := hc.rest
  simp [ends_run_cons accepts hrest, hnewline]

/-- A class that holds no filler leads to nowhere halfway. -/
theorem not_halfway_of_mem_one {accepts : Char → Bool} (hspace : accepts ' ' = false)
    (hreturn : accepts '\r' = false) {c d : Cursor L} (hd : d ∈ ends (one accepts) c) :
    ¬ Halfway d := by
  obtain ⟨x, rest, hrest, hx, rfl⟩ := mem_ends_one.mp hd
  rintro ⟨⟨b, hb, hbefore⟩, -⟩
  obtain rfl : x = b := Option.some.inj hbefore
  rcases hb with rfl | rfl
  · exact Bool.false_ne_true (hspace.symm.trans hx)
  · exact Bool.false_ne_true (hreturn.symm.trans hx)

theorem kept_one {accepts : Char → Bool} (hnewline : accepts '\n' = false) {c c' : Cursor L}
    (h : Aligned φ c c') : Kept φ (ends (one accepts) c) (ends (one accepts) c') := by
  cases h.follows with
  | nothing hrest hrest' =>
      rw [ends, ends, hrest, hrest']
      exact .nil
  | plain x s s' hrest hrest' hnext =>
      rw [ends_one_cons accepts hrest, ends_one_cons accepts hrest']
      split_ifs
      · exact .singleton hnext
      · exact .nil
  | newline b s s' hb hrest hrest' hnext =>
      rw [ends_one_cons accepts hrest, ends_one_cons accepts hrest', if_neg (by simp [hnewline])]
      split_ifs
      · exact .halfway (halfway_advance c' hb s') .nil
      · exact .nil

theorem crosses_one (accepts : Char → Bool) :
    Crosses φ (one accepts : Pattern L).crossing (one accepts : Pattern L) where
  refuses := fun h _ => ends_one_of_halfway ((Bool.not_eq_true' _).mp h)
  stays := by
    intro h c' hc' d' hd'
    rw [ends_one_of_halfway ((Bool.not_eq_true' _).mp h) hc'] at hd'
    contradiction
  clean := by
    intro h _ _ _ d' hd'
    obtain ⟨hspace, hreturn⟩ := Bool.and_eq_true_iff.mp h
    exact not_halfway_of_mem_one ((Bool.not_eq_true' _).mp hspace)
      ((Bool.not_eq_true' _).mp hreturn) hd'
  faithful := fun h _ _ => kept_one ((Bool.not_eq_true' _).mp h)

/-- A run ends where it does in the text with line feeds, and perhaps halfway as well. -/
theorem kept_run {accepts : Char → Bool}
    (hwide : accepts '\n' = true → accepts ' ' = true ∧ accepts '\r' = true) {s : List Char}
    {c c' : Cursor L} (hs : c.rest = s) (h : Aligned φ c c') :
    Kept φ (ends (run accepts) c) (ends (run accepts) c') := by
  induction s generalizing c c' with
  | nil =>
      cases h.follows with
      | nothing hrest hrest' =>
          rw [ends_run_nil accepts hrest, ends_run_nil accepts hrest']
          exact .singleton h
      | plain x s s' hrest => exact absurd (hs.symm.trans hrest) (by simp)
      | newline b s s' hb hrest => exact absurd (hs.symm.trans hrest) (by simp)
  | cons x s ih =>
      cases h.follows with
      | nothing hrest => exact absurd (hs.symm.trans hrest) (by simp)
      | plain y s s' hrest hrest' hnext =>
          obtain ⟨rfl, rfl⟩ := List.cons.inj (hs.symm.trans hrest)
          rw [ends_run_cons accepts hrest, ends_run_cons accepts hrest']
          split_ifs
          · exact (ih rfl hnext).append (.singleton h)
          · exact .singleton h
      | newline b s s' hb hrest hrest' hnext =>
          obtain ⟨rfl, rfl⟩ := List.cons.inj (hs.symm.trans hrest)
          have hhalfway := halfway_advance c' hb s'
          rw [ends_run_cons accepts hrest, ends_run_cons accepts hrest']
          cases hnewline : accepts '\n' with
          | true =>
              have hfiller : accepts b = true := by
                rcases hb with rfl | rfl
                · exact (hwide hnewline).1
                · exact (hwide hnewline).2
              rw [if_pos rfl, if_pos hfiller,
                ends_run_cons accepts (c := c'.advance b ('\n' :: s')) rfl, if_pos hnewline,
                List.append_assoc]
              exact (ih rfl hnext).append (.halfway hhalfway (.singleton h))
          | false =>
              rw [if_neg (by simp)]
              split_ifs
              · rw [ends_run_of_halfway hnewline hhalfway]
                exact .halfway hhalfway (.singleton h)
              · exact .singleton h

theorem not_halfway_of_mem_run {accepts : Char → Bool} (hspace : accepts ' ' = false)
    (hreturn : accepts '\r' = false) {s : List Char} {c c' d' : Cursor L} (hs : c.rest = s)
    (h : Aligned φ c c') (hd' : d' ∈ ends (run accepts) c') : ¬ Halfway d' := by
  have hstay : ∀ d', d' ∈ [c'] → ¬ Halfway d' :=
    fun d' hd' => List.mem_singleton.mp hd' ▸ h.not_halfway
  induction s generalizing c c' with
  | nil =>
      cases h.follows with
      | nothing hrest hrest' =>
          rw [ends_run_nil accepts hrest'] at hd'
          exact hstay d' hd'
      | plain x s s' hrest => exact absurd (hs.symm.trans hrest) (by simp)
      | newline b s s' hb hrest => exact absurd (hs.symm.trans hrest) (by simp)
  | cons x s ih =>
      cases h.follows with
      | nothing hrest => exact absurd (hs.symm.trans hrest) (by simp)
      | plain y s s' hrest hrest' hnext =>
          obtain ⟨rfl, rfl⟩ := List.cons.inj (hs.symm.trans hrest)
          rw [ends_run_cons accepts hrest'] at hd'
          split_ifs at hd'
          · rcases List.mem_append.mp hd' with hd' | hd'
            · refine ih rfl hnext hd' fun d' hd' => ?_
              exact List.mem_singleton.mp hd' ▸ hnext.not_halfway
            · exact hstay d' hd'
          · exact hstay d' hd'
      | newline b s s' hb hrest hrest' hnext =>
          have hfiller : accepts b = false := by
            rcases hb with rfl | rfl
            · exact hspace
            · exact hreturn
          rw [ends_run_cons accepts hrest', hfiller] at hd'
          exact hstay d' hd'

theorem crosses_run (accepts : Char → Bool) :
    Crosses φ (run accepts : Pattern L).crossing (run accepts : Pattern L) where
  refuses := nofun
  stays := by
    intro h c' hc' d' hd'
    rw [ends_run_of_halfway ((Bool.not_eq_true' _).mp h) hc'] at hd'
    exact List.mem_singleton.mp hd' ▸ hc'
  clean := by
    intro h c c' haligned d' hd'
    obtain ⟨hspace, hreturn⟩ := Bool.and_eq_true_iff.mp h
    exact not_halfway_of_mem_run ((Bool.not_eq_true' _).mp hspace)
      ((Bool.not_eq_true' _).mp hreturn) rfl haligned hd'
  faithful := by
    intro h c c' haligned
    refine kept_run (fun hnewline => ?_) rfl haligned
    rcases (Bool.or_eq_true_iff ..).mp h with hnone | hall
    · rw [hnewline] at hnone
      contradiction
    · exact Bool.and_eq_true_iff.mp hall

/-- A run of at least one character passes over a whole line end if its classes hold all
characters of it. -/
theorem kept_wideRun {p q : Pattern L} (hwide : isWideRun p q = true) {c c' : Cursor L}
    (h : Aligned φ c c') : Kept φ (ends (p ++ q) c) (ends (p ++ q) c') := by
  unfold isWideRun at hwide
  split at hwide
  · rename_i accepts accepts'
    simp only [List.all_cons, List.all_nil, Bool.and_true, Bool.and_eq_true] at hwide
    obtain ⟨⟨hspace, hreturn, hnewline⟩, hspace', hreturn', hnewline'⟩ := hwide
    have hrun : ∀ {c c' : Cursor L}, Aligned φ c c' →
        Kept φ (ends (run accepts') c) (ends (run accepts') c') :=
      fun h => kept_run (fun _ => ⟨hspace', hreturn'⟩) rfl h
    rw [ends_seq, ends_seq]
    cases h.follows with
    | nothing hrest hrest' =>
        rw [ends, ends, hrest, hrest']
        exact .nil
    | plain x s s' hrest hrest' hnext =>
        rw [ends_one_cons accepts hrest, ends_one_cons accepts hrest']
        split_ifs
        · rw [List.flatMap_singleton, List.flatMap_singleton]
          exact hrun hnext
        · exact .nil
    | newline b s s' hb hrest hrest' hnext =>
        have hfiller : accepts b = true := by
          rcases hb with rfl | rfl
          · exact hspace
          · exact hreturn
        rw [ends_one_cons accepts hrest, ends_one_cons accepts hrest', if_pos hnewline,
          if_pos hfiller, List.flatMap_singleton, List.flatMap_singleton,
          ends_run_cons accepts' (c := c'.advance b ('\n' :: s')) rfl, if_pos hnewline',
          ← List.append_nil (ends (run accepts') (c.advance '\n' s))]
        exact (hrun hnext).append (.halfway (halfway_advance c' hb s') .nil)
  · contradiction

/-! ### Combinations -/

section

variable {p q : Pattern L} {known known' : Crossing}

theorem crosses_seq (hp : Crosses φ p.crossing p) (hq : Crosses φ q.crossing q) :
    Crosses φ (p ++ q).crossing (p ++ q) where
  refuses := by
    intro h c' hc'
    rw [ends_seq]
    rcases (Bool.or_eq_true_iff ..).mp h with hrefuses | hboth
    · rw [hp.refuses hrefuses c' hc', List.flatMap_nil]
    · obtain ⟨hstays, hrefuses⟩ := Bool.and_eq_true_iff.mp hboth
      rw [List.flatMap_eq_nil_iff]
      exact fun d' hd' => hq.refuses hrefuses d' (hp.stays hstays c' hc' d' hd')
  stays := by
    intro h c' hc' d' hd'
    obtain ⟨e', he', hd'⟩ := List.mem_flatMap.mp hd'
    rcases (Bool.or_eq_true_iff ..).mp h with hrefuses | hboth
    · rw [hp.refuses hrefuses c' hc'] at he'
      contradiction
    · obtain ⟨hstays, hstays'⟩ := Bool.and_eq_true_iff.mp hboth
      exact hq.stays hstays' e' (hp.stays hstays c' hc' e' he') d' hd'
  clean := by
    intro h c c' haligned d' hd'
    obtain ⟨hboth, hleft⟩ := Bool.and_eq_true_iff.mp h
    obtain ⟨hfaithful, hclean⟩ := Bool.and_eq_true_iff.mp hboth
    obtain ⟨e', he', hd'⟩ := List.mem_flatMap.mp hd'
    rcases (hp.faithful hfaithful c c' haligned).aligned_or_halfway e' he' with ⟨e, he⟩ | hhalfway
    · exact hq.clean hclean e e' he d' hd'
    · rcases (Bool.or_eq_true_iff ..).mp hleft with hclean' | hrefuses
      · exact absurd hhalfway (hp.clean hclean' c c' haligned e' he')
      · rw [hq.refuses hrefuses e' hhalfway] at hd'
        contradiction
  faithful := by
    intro h c c' haligned
    rcases (Bool.or_eq_true_iff ..).mp h with hwide | hboth
    · exact kept_wideRun hwide haligned
    · obtain ⟨hfaithful, hleft⟩ := Bool.and_eq_true_iff.mp hboth
      obtain ⟨hfirst, hsecond⟩ := Bool.and_eq_true_iff.mp hfaithful
      refine (hp.faithful hfirst c c' haligned).flatMap (hq.faithful hsecond) ?_
      intro e' he' hhalfway
      rcases (Bool.or_eq_true_iff ..).mp hleft with hclean | hstays
      · exact absurd hhalfway (hp.clean hclean c c' haligned e' he')
      · exact hq.stays hstays e' hhalfway

theorem crosses_either (hp : Crosses φ p.crossing p) (hq : Crosses φ q.crossing q) :
    Crosses φ (either p q).crossing (either p q) where
  refuses := by
    intro h c' hc'
    obtain ⟨hfirst, hsecond⟩ := Bool.and_eq_true_iff.mp h
    rw [ends, hp.refuses hfirst c' hc', hq.refuses hsecond c' hc']
    rfl
  stays := by
    intro h c' hc'
    obtain ⟨hfirst, hsecond⟩ := Bool.and_eq_true_iff.mp h
    exact List.forall_mem_append.mpr ⟨hp.stays hfirst c' hc', hq.stays hsecond c' hc'⟩
  clean := by
    intro h c c' haligned
    obtain ⟨hfirst, hsecond⟩ := Bool.and_eq_true_iff.mp h
    exact List.forall_mem_append.mpr
      ⟨hp.clean hfirst c c' haligned, hq.clean hsecond c c' haligned⟩
  faithful := by
    intro h c c' haligned
    obtain ⟨hfirst, hsecond⟩ := Bool.and_eq_true_iff.mp h
    exact (hp.faithful hfirst c c' haligned).append (hq.faithful hsecond c c' haligned)

theorem crosses_mark (label : L) (hp : Crosses φ p.crossing p) :
    Crosses φ (mark label p).crossing (mark label p) where
  refuses := by
    intro h c' hc'
    rw [ends, hp.refuses h c' hc']
    rfl
  stays := by
    intro h c' hc' d' hd'
    obtain ⟨e', he', rfl⟩ := List.mem_map.mp hd'
    exact (hp.stays h c' hc' e' he').withMark label c'.offset
  clean := by
    intro h c c' haligned d' hd' hhalfway
    obtain ⟨e', he', rfl⟩ := List.mem_map.mp hd'
    exact hp.clean h c c' haligned e' he' ⟨hhalfway.before, hhalfway.rest⟩
  faithful := by
    intro h c c' haligned
    exact (hp.faithful h c c' haligned).map (fun _ _ hd => haligned.withMark hd label)
      fun _ hd' => hd'.withMark label c'.offset

/-- Several rounds, of which none ends halfway or all stay there. -/
theorem kept_rounds (hp : Crosses φ p.crossing p) (hfaithful : p.crossing.faithful = true)
    (hleft : p.crossing.clean = true ∨ p.crossing.stays = true) (fuel : Nat) {c c' : Cursor L}
    (h : Aligned φ c c') : Kept φ (roundEnds (ends p) fuel c) (roundEnds (ends p) fuel c') := by
  induction fuel generalizing c c' with
  | zero => exact .singleton h
  | succ fuel ih =>
      refine Kept.append ?_ (.singleton h)
      refine (hp.faithful hfaithful c c' h).flatMap (fun _ _ hd => ih hd) ?_
      intro e' he' hhalfway d' hd'
      rcases hleft with hclean | hstays
      · exact absurd hhalfway (hp.clean hclean c c' h e' he')
      · exact of_mem_roundEnds (R := fun c d => Halfway c → Halfway d) (fun _ h => h)
          (fun h h' hc => h' (h hc)) (fun c d hd hc => hp.stays hstays c hc d hd) hd' hhalfway

theorem crosses_many (hp : Crosses φ p.crossing p) : Crosses φ (many p).crossing (many p) where
  refuses := nofun
  stays := by
    intro h c' hc' d' hd'
    exact of_mem_roundEnds (R := fun c d => Halfway c → Halfway d) (fun _ h => h)
      (fun h h' hc => h' (h hc)) (fun c d hd hc => hp.stays h c hc d hd) hd' hc'
  clean := by
    intro h c c' haligned d' hd'
    obtain ⟨hfaithful, hclean⟩ := Bool.and_eq_true_iff.mp h
    have hrounds : (∃ c, Aligned φ c c') → ∃ d, Aligned φ d d' :=
      of_mem_roundEnds (R := fun c' d' => (∃ c, Aligned φ c c') → ∃ d, Aligned φ d d')
        (fun _ h => h) (fun h h' hc => h' (h hc))
        (fun c' d' hd' ⟨c, hc⟩ =>
          ((hp.faithful hfaithful c c' hc).aligned_or_halfway d' hd').resolve_right
            (hp.clean hclean c c' hc d' hd')) hd'
    obtain ⟨d, hd⟩ := hrounds ⟨c, haligned⟩
    exact hd.not_halfway
  faithful := by
    intro h c c' haligned
    obtain ⟨hboth, hleft⟩ := Bool.and_eq_true_iff.mp h
    obtain ⟨hfaithful, hprogresses⟩ := Bool.and_eq_true_iff.mp hboth
    -- The wider text gives more fuel, which makes no difference.
    have hconsumes := consumes_of_progresses hprogresses
    rw [ends, ends, roundEnds_fuel hconsumes (le_refl c.rest.length)
        (Nat.le_add_right _ c'.rest.length),
      roundEnds_fuel hconsumes (le_refl c'.rest.length) (Nat.le_add_left _ c.rest.length)]
    exact kept_rounds hp hfaithful ((Bool.or_eq_true_iff ..).mp hleft) _ haligned

/-! ### Tests -/

theorem crosses_test (test : Cursor L → Bool) (hends : ∀ c, ends p c = if test c then [c] else [])
    (haligned : known.faithful = true → ∀ c c', Aligned φ c c' → test c' = test c)
    (hrefuses : known.refuses = true → ∀ c', Halfway c' → test c' = false) :
    Crosses φ known p where
  refuses := by
    intro h c' hc'
    rw [hends, hrefuses h c' hc']
    rfl
  stays := by
    intro _ c' hc' d' hd'
    rw [hends] at hd'
    exact (eq_of_mem_ite hd').2 ▸ hc'
  clean := by
    intro _ c c' hc d' hd'
    rw [hends] at hd'
    exact (eq_of_mem_ite hd').2 ▸ hc.not_halfway
  faithful := by
    intro h c c' hc
    rw [hends, hends, haligned h c c' hc]
    split_ifs
    · exact .singleton hc
    · exact .nil

theorem crosses_edge : Crosses φ (edge : Pattern L).crossing (edge : Pattern L) :=
  crosses_test _ (fun _ => rfl) (fun _ _ _ h => h.atEdge_eq) fun _ _ h => h.atEdge_eq

theorem crosses_lineStart : Crosses φ (lineStart : Pattern L).crossing (lineStart : Pattern L) :=
  crosses_test _ (fun _ => rfl) (fun _ _ _ h => h.atLineStart_eq) fun _ _ h => h.atLineStart_eq

/-- Whether a pattern is found at two aligned places is the same if it does not end halfway, or
if it is a class that does not tell the characters of a line end apart. -/
theorem isEmpty_ends_eq (hp : Crosses φ p.crossing p)
    (h : (p.isLevel || p.crossing.faithful && p.crossing.clean) = true) {c c' : Cursor L}
    (haligned : Aligned φ c c') : (ends p c').isEmpty = (ends p c).isEmpty := by
  rcases (Bool.or_eq_true_iff ..).mp h with hlevel | hboth
  · unfold isLevel at hlevel
    split at hlevel
    · rename_i accepts
      rw [Bool.and_eq_true, beq_iff_eq, beq_iff_eq] at hlevel
      cases haligned.follows with
      | nothing hrest hrest' => rw [ends, ends, hrest, hrest']
      | plain x s s' hrest hrest' hnext =>
          rw [ends_one_cons accepts hrest, ends_one_cons accepts hrest']
          cases accepts x <;> rfl
      | newline b s s' hb hrest hrest' hnext =>
          have hfiller : accepts b = accepts '\n' := by
            rcases hb with rfl | rfl
            · exact hlevel.1
            · exact hlevel.2
          rw [ends_one_cons accepts hrest, ends_one_cons accepts hrest', hfiller]
          cases accepts '\n' <;> rfl
    · contradiction
  · obtain ⟨hfaithful, hclean⟩ := Bool.and_eq_true_iff.mp hboth
    have hall := (hp.faithful hfaithful c c' haligned).forall₂ (hp.clean hclean c c' haligned)
    generalize ends p c = ds at hall
    generalize ends p c' = ds' at hall
    cases hall with
    | nil => rfl
    | cons hd h => rfl

theorem crosses_ahead (hp : Crosses φ p.crossing p) : Crosses φ (ahead p).crossing (ahead p) := by
  refine crosses_test (fun c => !(ends p c).isEmpty) (fun c => ?_) (fun h c c' hc => ?_)
    fun h c' hc' => ?_
  · rw [ends]
    cases (ends p c).isEmpty with
    | true => rfl
    | false => rfl
  · rw [isEmpty_ends_eq hp h hc]
  · rw [hp.refuses h c' hc']
    rfl

theorem crosses_notAhead (hp : Crosses φ p.crossing p) :
    Crosses φ (notAhead p).crossing (notAhead p) :=
  crosses_test (fun c => (ends p c).isEmpty) (fun _ => rfl)
    (fun h _ _ hc => isEmpty_ends_eq hp h hc) nofun

end

/-- What the structure of a pattern shows of it is true. -/
theorem crosses_crossing (p : Pattern L) : Crosses φ p.crossing p := by
  induction p with
  | empty => exact crosses_empty
  | one accepts => exact crosses_one accepts
  | run accepts => exact crosses_run accepts
  | seq p q ihp ihq => exact crosses_seq ihp ihq
  | either p q ihp ihq => exact crosses_either ihp ihq
  | many p ih => exact crosses_many ih
  | mark label p ih => exact crosses_mark label ih
  | edge => exact crosses_edge
  | lineStart => exact crosses_lineStart
  | ahead p ih => exact crosses_ahead ih
  | notAhead p ih => exact crosses_notAhead ih

/-! ## Searches -/

/-- Whether the matches of a pattern move with the text. -/
def moves (p : Pattern L) : Bool :=
  p.crossing.faithful && p.crossing.clean && p.crossing.refuses

theorem forall₂_ends {p : Pattern L} (hp : p.moves = true) {c c' : Cursor L}
    (h : Aligned φ c c') : List.Forall₂ (Aligned φ) (ends p c) (ends p c') := by
  obtain ⟨hboth, -⟩ := Bool.and_eq_true_iff.mp hp
  obtain ⟨hfaithful, hclean⟩ := Bool.and_eq_true_iff.mp hboth
  exact ((crosses_crossing p).faithful hfaithful c c' h).forall₂
    ((crosses_crossing p).clean hclean c c' h)

section

variable {p : Pattern L} {offset : Nat} {s s' : List Char}

/-- The match at a place that has moved. -/
theorem matchAt_widened (hp : p.moves = true) (h : Widened φ offset s s') (before : Option Char) :
    p.matchAt before (φ offset) s' = (p.matchAt before offset s).map (·.place φ) := by
  have haligned : Aligned φ (⟨before, s, offset, []⟩ : Cursor L) ⟨before, s', φ offset, []⟩ :=
    ⟨rfl, h, rfl, rfl⟩
  have hall := forall₂_ends hp haligned
  rw [matchAt_eq, matchAt_eq]
  generalize ends p ⟨before, s, offset, []⟩ = ds at hall
  generalize ends p ⟨before, s', φ offset, []⟩ = ds' at hall
  cases hall with
  | nil => rfl
  | cons hd hds =>
      rw [List.head?_cons, List.head?_cons, Option.map_some, Option.map_some, Option.map_some,
        hd.offset_eq, hd.marks_eq]
      rfl

/-- No match begins halfway. -/
theorem matchesFrom_halfway (hp : p.moves = true) {b : Char} (hb : IsFiller b) (skip : Nat) :
    p.matchesFrom skip (some b) offset ('\n' :: s) =
      p.matchesFrom (skip - 1) (some '\n') (offset + 1) s := by
  have hrefuses := (Bool.and_eq_true_iff.mp hp).2
  cases skip with
  | succ skip => rfl
  | zero =>
      have hcrosses : Crosses id p.crossing p := crosses_crossing p
      have hnil := hcrosses.refuses hrefuses ⟨some b, '\n' :: s, offset, []⟩
        ⟨⟨b, hb, rfl⟩, s, rfl⟩
      rw [matchesFrom, matchAt_eq, hnil]
      rfl

theorem matchesFrom_zero (p : Pattern L) (before : Option Char) (offset : Nat) (c : Char)
    (rest : List Char) :
    p.matchesFrom 0 before offset (c :: rest) =
      match p.matchAt before offset (c :: rest) with
      | some m => m :: p.matchesFrom (m.span.stop - offset - 1) (some c) (offset + 1) rest
      | none => p.matchesFrom 0 (some c) (offset + 1) rest :=
  rfl

/-- Behind a match, a search goes on at the place to which the end of the match has moved. -/
theorem skip_place (hmono : StrictMono φ) {width : Nat} (hφ : φ (offset + 1) = φ offset + width)
    (stop : Nat) :
    φ (offset + (stop - offset - 1 + 1)) = φ offset + (φ stop - φ offset - width + width) := by
  rcases Nat.lt_or_ge offset stop with hlt | hle
  · have hmoved := hmono.monotone (Nat.succ_le_of_lt hlt)
    rw [Nat.succ_eq_add_one, hφ] at hmoved
    rw [show offset + (stop - offset - 1 + 1) = stop by omega]
    omega
  · have hmoved := hmono.monotone hle
    rw [show offset + (stop - offset - 1 + 1) = offset + 1 by omega]
    omega

/-- The step of a search over a character that does not end a line. -/
theorem matchesFrom_plain (hp : p.moves = true) (hmono : StrictMono φ) {c : Char} (hc : c ≠ '\n')
    (hφ : φ (offset + 1) = φ offset + 1) (h : Widened φ (offset + 1) s s')
    (hnext : ∀ {skip skip'}, φ (offset + (skip + 1)) = φ offset + (skip' + 1) →
      p.matchesFrom skip' (some c) (φ offset + 1) s' =
        (p.matchesFrom skip (some c) (offset + 1) s).map (·.place φ))
    {skip skip' : Nat} (hskip : φ (offset + skip) = φ offset + skip') (before : Option Char) :
    p.matchesFrom skip' before (φ offset) (c :: s') =
      (p.matchesFrom skip before offset (c :: s)).map (·.place φ) := by
  cases skip with
  | succ skip =>
      have hlt : φ offset < φ (offset + (skip + 1)) := hmono (by omega)
      obtain ⟨more, rfl⟩ := Nat.exists_eq_add_of_lt (show 0 < skip' by omega)
      rw [Nat.zero_add] at hskip ⊢
      exact hnext hskip
  | zero =>
      obtain rfl : skip' = 0 := by rw [Nat.add_zero] at hskip; omega
      rw [matchesFrom_zero, matchesFrom_zero, matchAt_widened hp (.plain hc hφ h)]
      cases hm : p.matchAt before offset (c :: s) with
      | none => exact hnext (by rw [Nat.zero_add, hφ])
      | some m => exact congrArg (m.place φ :: ·) (hnext (skip_place hmono hφ m.span.stop))

/-- The step of a search over a line end, which is two steps over a wide one. -/
theorem matchesFrom_newline (hp : p.moves = true) (hmono : StrictMono φ) {b : Char}
    (hb : IsFiller b) (hφ : φ (offset + 1) = φ offset + 2) (h : Widened φ (offset + 1) s s')
    (hnext : ∀ {skip skip'}, φ (offset + (skip + 1)) = φ offset + (skip' + 2) →
      p.matchesFrom skip' (some '\n') (φ offset + 1 + 1) s' =
        (p.matchesFrom skip (some '\n') (offset + 1) s).map (·.place φ))
    {skip skip' : Nat} (hskip : φ (offset + skip) = φ offset + skip') (before : Option Char) :
    p.matchesFrom skip' before (φ offset) (b :: '\n' :: s') =
      (p.matchesFrom skip before offset ('\n' :: s)).map (·.place φ) := by
  cases skip with
  | succ skip =>
      have hle : φ (offset + 1) ≤ φ (offset + (skip + 1)) := hmono.monotone (by omega)
      obtain ⟨more, rfl⟩ := Nat.exists_eq_add_of_le (show 2 ≤ skip' by omega)
      rw [Nat.add_comm 2 more] at hskip ⊢
      exact hnext hskip
  | zero =>
      obtain rfl : skip' = 0 := by rw [Nat.add_zero] at hskip; omega
      rw [matchesFrom_zero p before (φ offset) b, matchesFrom_zero p before offset '\n',
        matchAt_widened hp (.newline hb hφ h)]
      cases hm : p.matchAt before offset ('\n' :: s) with
      | none =>
          show p.matchesFrom 0 (some b) (φ offset + 1) ('\n' :: s') = _
          rw [matchesFrom_halfway hp hb]
          exact hnext (by rw [Nat.zero_add, hφ])
      | some m =>
          show m.place φ :: p.matchesFrom _ (some b) (φ offset + 1) ('\n' :: s') = _
          rw [matchesFrom_halfway hp hb]
          exact congrArg (m.place φ :: ·) (hnext (skip_place hmono hφ m.span.stop))

/-- A search finds the same in the text with wide line ends, where that has moved. -/
theorem matchesFrom_widened (hp : p.moves = true) (hmono : StrictMono φ)
    (h : Widened φ offset s s') {skip skip' : Nat} (hskip : φ (offset + skip) = φ offset + skip')
    (before : Option Char) :
    p.matchesFrom skip' before (φ offset) s' =
      (p.matchesFrom skip before offset s).map (·.place φ) := by
  -- Along both texts: what is skipped of the one moves to what is skipped of the other one.
  induction h generalizing skip skip' before with
  | nil => cases skip <;> cases skip' <;> rfl
  | @plain offset c s s' hc hφ h ih =>
      refine matchesFrom_plain hp hmono hc hφ h (fun {skip skip'} hskip => ?_) hskip before
      rw [← hφ]
      refine ih ?_ (some c)
      rw [Nat.add_assoc, Nat.add_comm 1 skip]
      omega
  | @newline offset b s s' hb hφ h ih =>
      refine matchesFrom_newline hp hmono hb hφ h (fun {skip skip'} hskip => ?_) hskip before
      rw [Nat.add_assoc, ← hφ]
      refine ih ?_ (some '\n')
      rw [Nat.add_assoc, Nat.add_comm 1 skip]
      omega

end

section

variable {p : Pattern L} {text text' : List Char}

theorem allMatches_widened (hp : p.moves = true) (h : Widens φ text text') :
    p.allMatches text' = (p.allMatches text).map (·.place φ) := by
  have hsearch := matchesFrom_widened hp h.mono h.widened (show φ (0 + 0) = φ 0 + 0 from rfl) none
  rwa [h.zero] at hsearch

/-- The matches in a region move with the text. -/
theorem matchesIn_widened (hp : p.moves = true) (h : Widens φ text text') {region : Span}
    (hregion : region.start ≤ text.length) :
    p.matchesIn text' (region.place φ) = (p.matchesIn text region).map (·.place φ) := by
  have hregion' : φ region.start ≤ text'.length := by
    rw [h.length]
    exact h.mono.monotone hregion
  rw [matchesIn, matchesIn, show (region.place φ).start = φ region.start from rfl,
    ← getLast?_take_eq hregion, ← getLast?_take_eq hregion', (h.take region.start).getLast?_eq]
  exact matchesFrom_widened hp h.mono (h.slice region) rfl _

end

end Pattern

end SourceChunks
