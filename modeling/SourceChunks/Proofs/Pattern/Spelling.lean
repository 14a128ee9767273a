import Mathlib
import SourceChunks.Proofs.Pattern.Ends

/-!
# What a pattern can describe

Wherever it stands, a pattern describes only certain stretches of text, which can be read off
the pattern: parts in a row describe stretches in a row, and so on.  What has to stand around a
stretch is left out, so there may be other stretches than those that a search finds.

* `Pattern.Spells`: the stretches that a pattern describes.
* `spells_of_mem_ends`: a pattern leads to its ends over such stretches.
* `Pattern.labels`, `labels_of_mem_ends`: the labels of the parts that it marks on the way.
* `Pattern.labelAvoids`, `notMem_of_mem_marks`: characters that do not occur in a marked part.
* `spells_some1`, `spells_word`, `spells_anyOf_words`: the stretches of common patterns.
-/

namespace SourceChunks

variable {L : Type}

namespace Pattern

/-- A pattern describes a stretch of text, if what stands around it allows that. -/
def Spells : Pattern L → List Char → Prop
  | empty, s => s = []
  | one accepts, s => ∃ x, accepts x = true ∧ s = [x]
  | run accepts, s => ∀ x ∈ s, accepts x = true
  | seq p q, s => ∃ first second, s = first ++ second ∧ Spells p first ∧ Spells q second
  | either p q, s => Spells p s ∨ Spells q s
  | many p, s => ∃ rounds, s = List.flatten rounds ∧ ∀ round ∈ rounds, Spells p round
  | mark _ p, s => Spells p s
  | edge, s => s = []
  | lineStart, s => s = []
  | ahead _, s => s = []
  | notAhead _, s => s = []

/-- One place leads to another over a stretch that a pattern describes. -/
def LeadsOver (p : Pattern L) (c d : Cursor L) : Prop :=
  ∃ passed, Cursor.Leads passed c d ∧ p.Spells passed

/-- A pattern leads to its ends over stretches that it describes. -/
theorem spells_of_mem_ends {p : Pattern L} {c d : Cursor L} (hd : d ∈ ends p c) :
    LeadsOver p c d := by
  -- By the structure of the pattern; the rounds of a repetition come one after another.
  induction p generalizing c d with
  | empty => exact ⟨[], List.mem_singleton.mp hd ▸ .refl c, rfl⟩
  | one accepts =>
      obtain ⟨x, rest, hrest, hx, rfl⟩ := mem_ends_one.mp hd
      exact ⟨[x], Cursor.leads_advance hrest, x, hx, rfl⟩
  | run accepts => exact passes_of_mem_ends (p := run accepts) (fun x hx => hx) hd
  | seq p q ihp ihq =>
      obtain ⟨e, he, hd⟩ := List.mem_flatMap.mp hd
      obtain ⟨first, hfirst, hp⟩ := ihp he
      obtain ⟨second, hsecond, hq⟩ := ihq hd
      exact ⟨first ++ second, hfirst.trans hsecond, first, second, rfl, hp, hq⟩
  | either p q ihp ihq =>
      rcases List.mem_append.mp hd with hd | hd
      · obtain ⟨passed, hlead, hp⟩ := ihp hd
        exact ⟨passed, hlead, .inl hp⟩
      · obtain ⟨passed, hlead, hq⟩ := ihq hd
        exact ⟨passed, hlead, .inr hq⟩
  | many p ih =>
      refine of_mem_roundEnds (R := LeadsOver (many p)) ?_ ?_ ?_ hd
      · exact fun c => ⟨[], .refl c, [], rfl, by simp⟩
      · rintro c d e ⟨passed, hlead, rounds, rfl, hrounds⟩ ⟨passed', hlead', rounds', rfl, hrounds'⟩
        refine ⟨_, hlead.trans hlead', rounds ++ rounds', by simp, fun round hround => ?_⟩
        rcases List.mem_append.mp hround with hround | hround
        · exact hrounds round hround
        · exact hrounds' round hround
      · intro c d hd
        obtain ⟨passed, hlead, hp⟩ := ih hd
        exact ⟨passed, hlead, [passed], by simp, by simpa using hp⟩
  | mark label p ih =>
      obtain ⟨e, he, rfl⟩ := List.mem_map.mp hd
      obtain ⟨passed, hlead, hp⟩ := ih he
      exact ⟨passed, hlead.withMark label, hp⟩
  | edge => exact ⟨[], (eq_of_mem_ite hd).2 ▸ .refl c, rfl⟩
  | lineStart => exact ⟨[], (eq_of_mem_ite hd).2 ▸ .refl c, rfl⟩
  | ahead p _ =>
      rw [ends] at hd
      split_ifs at hd
      · contradiction
      · exact ⟨[], List.mem_singleton.mp hd ▸ .refl c, rfl⟩
  | notAhead p _ => exact ⟨[], (eq_of_mem_ite hd).2 ▸ .refl c, rfl⟩

/-- The characters of a stretch are of the classes of the pattern. -/
theorem sort_of_spells {sort : Char → Prop} {p : Pattern L} (hp : p.Reads sort) {s : List Char}
    (h : p.Spells s) : ∀ x ∈ s, sort x := by
  have hnil : ∀ {s : List Char}, s = [] → ∀ x ∈ s, sort x := by
    rintro s rfl x hx
    contradiction
  induction p generalizing s with
  | one accepts =>
      obtain ⟨x, hx, rfl⟩ := h
      exact fun y hy => List.mem_singleton.mp hy ▸ hp x hx
  | run accepts => exact fun x hx => hp x (h x hx)
  | seq p q ihp ihq =>
      obtain ⟨first, second, rfl, hfirst, hsecond⟩ := h
      exact List.forall_mem_append.mpr ⟨ihp hp.1 hfirst, ihq hp.2 hsecond⟩
  | either p q ihp ihq =>
      rcases h with h | h
      · exact ihp hp.1 h
      · exact ihq hp.2 h
  | many p ih =>
      obtain ⟨rounds, rfl, hrounds⟩ := h
      intro x hx
      obtain ⟨round, hround, hx⟩ := List.mem_flatten.mp hx
      exact ih hp (hrounds round hround) x hx
  | mark label p ih => exact ih hp h
  | _ => exact hnil h

/-! ## Labels -/

/-- The labels of the parts that a pattern may mark. -/
def labels : Pattern L → List L
  | empty => []
  | one _ => []
  | run _ => []
  | seq p q => labels p ++ labels q
  | either p q => labels p ++ labels q
  | many p => labels p
  | mark label p => label :: labels p
  | edge => []
  | lineStart => []
  | ahead _ => []
  | notAhead _ => []

/-- One place has the marks of another one, and later ones with some labels. -/
def AddsMarks (allowed : List L) (c d : Cursor L) : Prop :=
  ∃ more, d.marks = more ++ c.marks ∧ ∀ mark ∈ more, mark.1 ∈ allowed

theorem AddsMarks.refl (allowed : List L) (c : Cursor L) : AddsMarks allowed c c :=
  ⟨[], rfl, by simp⟩

theorem AddsMarks.trans {allowed : List L} {c d e : Cursor L} (h : AddsMarks allowed c d)
    (h' : AddsMarks allowed d e) : AddsMarks allowed c e := by
  obtain ⟨more, hmore, hallowed⟩ := h
  obtain ⟨more', hmore', hallowed'⟩ := h'
  refine ⟨more' ++ more, by rw [hmore', hmore, List.append_assoc], ?_⟩
  exact List.forall_mem_append.mpr ⟨hallowed', hallowed⟩

theorem AddsMarks.mono {allowed allowed' : List L} (hle : allowed ⊆ allowed') {c d : Cursor L}
    (h : AddsMarks allowed c d) : AddsMarks allowed' c d := by
  obtain ⟨more, hmore, hallowed⟩ := h
  exact ⟨more, hmore, fun mark hmark => hle (hallowed mark hmark)⟩

/-- The parts that a pattern marks on the way to an end have its labels. -/
theorem labels_of_mem_ends {p : Pattern L} {c d : Cursor L} (hd : d ∈ ends p c) :
    AddsMarks p.labels c d := by
  induction p generalizing c d with
  | empty => exact List.mem_singleton.mp hd ▸ .refl _ _
  | one accepts =>
      obtain ⟨x, rest, -, -, rfl⟩ := mem_ends_one.mp hd
      exact ⟨[], rfl, by simp⟩
  | run accepts =>
      have hmarks : ∀ (nearer : List (Cursor L)) before offset rest,
          (∀ e ∈ nearer, e.marks = c.marks) →
          ∀ e ∈ Cursor.runEnds accepts c.marks nearer before offset rest, e.marks = c.marks := by
        intro nearer before offset rest
        induction rest generalizing nearer before offset with
        | nil => exact fun hnearer => List.forall_mem_cons.mpr ⟨rfl, hnearer⟩
        | cons x rest ih =>
            intro hnearer
            rw [Cursor.runEnds]
            split_ifs
            · exact ih _ _ _ (List.forall_mem_cons.mpr ⟨rfl, hnearer⟩)
            · exact List.forall_mem_cons.mpr ⟨rfl, hnearer⟩
      exact ⟨[], hmarks [] c.before c.offset c.rest (by simp) d hd, by simp⟩
  | seq p q ihp ihq =>
      obtain ⟨e, he, hd⟩ := List.mem_flatMap.mp hd
      exact ((ihp he).mono (List.subset_append_left _ _)).trans
        ((ihq hd).mono (List.subset_append_right _ _))
  | either p q ihp ihq =>
      rcases List.mem_append.mp hd with hd | hd
      · exact (ihp hd).mono (List.subset_append_left _ _)
      · exact (ihq hd).mono (List.subset_append_right _ _)
  | many p ih =>
      exact of_mem_roundEnds (R := AddsMarks p.labels) (.refl _) .trans (fun _ _ he => ih he) hd
  | mark label p ih =>
      obtain ⟨e, he, rfl⟩ := List.mem_map.mp hd
      obtain ⟨more, hmore, hallowed⟩ := ih he
      refine ⟨(label, ⟨c.offset, e.offset⟩) :: more, by rw [Cursor.withMark, hmore]; rfl, ?_⟩
      exact List.forall_mem_cons.mpr
        ⟨List.mem_cons_self, fun mark hmark => List.mem_cons_of_mem _ (hallowed mark hmark)⟩
  | edge => exact (eq_of_mem_ite hd).2 ▸ .refl _ _
  | lineStart => exact (eq_of_mem_ite hd).2 ▸ .refl _ _
  | ahead p _ =>
      rw [ends] at hd
      split_ifs at hd
      · contradiction
      · exact List.mem_singleton.mp hd ▸ .refl _ _
  | notAhead p _ => exact (eq_of_mem_ite hd).2 ▸ .refl _ _

/-- What a pattern does not mark is marked as before. -/
theorem find_mark_of_mem_ends [DecidableEq L] {p : Pattern L} {label : L}
    (hlabel : label ∉ p.labels) {c d : Cursor L} (hd : d ∈ ends p c) :
    d.marks.find? (·.1 = label) = c.marks.find? (·.1 = label) := by
  obtain ⟨more, hmore, hallowed⟩ := labels_of_mem_ends hd
  have hnone : more.find? (·.1 = label) = none := by
    rw [List.find?_eq_none]
    intro mark hmark heq
    exact hlabel (of_decide_eq_true heq ▸ hallowed mark hmark)
  rw [hmore, List.find?_append, hnone, Option.none_or]

/-! ## Marked stretches -/

/-- Whether no class of a part with a label holds one of some characters. -/
def labelAvoids [DecidableEq L] (label : L) (xs : List Char) : Pattern L → Bool
  | seq p q => labelAvoids label xs p && labelAvoids label xs q
  | either p q => labelAvoids label xs p && labelAvoids label xs q
  | many p => labelAvoids label xs p
  | mark other p => (decide (other ≠ label) || p.avoids xs) && labelAvoids label xs p
  | _ => true

/-- The parts with a label that were marked on the way to a place of a text hold none of some
characters. -/
structure MarksAvoid (label : L) (xs text : List Char) (c : Cursor L) : Prop where
  rest_eq : c.rest = text.drop c.offset
  marked : ∀ span, (label, span) ∈ c.marks → ∀ x ∈ span.slice text, x ∉ xs

theorem rest_of_leads {text passed : List Char} {c d : Cursor L} (h : c.rest = text.drop c.offset)
    (hlead : Cursor.Leads passed c d) :
    d.rest = text.drop d.offset ∧ (⟨c.offset, d.offset⟩ : Span).slice text = passed := by
  have hdrop : text.drop c.offset = passed ++ d.rest := h ▸ hlead.rest_eq
  rw [Span.slice, hdrop, hlead.offset_eq, ← List.drop_drop, hdrop, List.drop_left,
    Nat.add_sub_cancel_left, List.take_left]
  exact ⟨rfl, rfl⟩

/-- What a pattern marks avoids the characters that its classes in marked parts avoid. -/
theorem marksAvoid_of_mem_ends [DecidableEq L] {label : L} {xs text : List Char} {p : Pattern L}
    (hp : p.labelAvoids label xs = true) {c d : Cursor L} (hc : MarksAvoid label xs text c)
    (hd : d ∈ ends p c) : MarksAvoid label xs text d := by
  -- By the structure of the pattern: only marking adds to the marks of a place.
  have hunmarked : ∀ {p : Pattern L} {c d : Cursor L}, p.labels = [] →
      MarksAvoid label xs text c → d ∈ ends p c → MarksAvoid label xs text d := by
    intro p c d hlabels hc hd
    obtain ⟨passed, hlead⟩ := leads_of_mem_ends hd
    obtain ⟨more, hmore, hallowed⟩ := labels_of_mem_ends hd
    rw [hlabels] at hallowed
    have hnil : more = [] := List.eq_nil_iff_forall_not_mem.mpr
      fun mark hmark => List.not_mem_nil (hallowed mark hmark)
    rw [hnil, List.nil_append] at hmore
    exact ⟨(rest_of_leads hc.rest_eq hlead).1, hmore ▸ hc.marked⟩
  induction p generalizing c d with
  | seq p q ihp ihq =>
      obtain ⟨hfirst, hsecond⟩ := Bool.and_eq_true_iff.mp hp
      obtain ⟨e, he, hd⟩ := List.mem_flatMap.mp hd
      exact ihq hsecond (ihp hfirst hc he) hd
  | either p q ihp ihq =>
      obtain ⟨hfirst, hsecond⟩ := Bool.and_eq_true_iff.mp hp
      rcases List.mem_append.mp hd with hd | hd
      · exact ihp hfirst hc hd
      · exact ihq hsecond hc hd
  | many p ih =>
      exact of_mem_roundEnds
        (R := fun c d => MarksAvoid label xs text c → MarksAvoid label xs text d)
        (fun _ h => h) (fun h h' hc => h' (h hc)) (fun c d hd hc => ih hp hc hd) hd hc
  | mark other p ih =>
      obtain ⟨hclass, hp⟩ := Bool.and_eq_true_iff.mp hp
      obtain ⟨e, he, rfl⟩ := List.mem_map.mp hd
      have hmore := ih hp hc he
      refine ⟨hmore.rest_eq, fun span hspan => ?_⟩
      rcases List.mem_cons.mp hspan with heq | hspan
      · obtain ⟨rfl, rfl⟩ := Prod.mk.inj heq
        have havoids : p.avoids xs = true := by simpa using hclass
        obtain ⟨passed, hlead, hpassed⟩ :=
          passes_of_mem_ends (reads_of_avoids (fun _ hx => hx) havoids) he
        rw [(rest_of_leads hc.rest_eq hlead).2]
        exact hpassed
      · exact hmore.marked span hspan
  | _ => exact hunmarked rfl hc hd

/-- What a match marks with a label holds none of the characters that its classes avoid. -/
theorem notMem_of_mem_marks [DecidableEq L] {label : L} {xs text : List Char} {p : Pattern L}
    (hp : p.labelAvoids label xs = true) {m : Match L} (hm : p.Found text m) {span : Span}
    (hmark : (label, span) ∈ m.marks) : ∀ x ∈ span.slice text, x ∉ xs := by
  obtain ⟨front, rest, d, rfl, -, hd, rfl⟩ := hm
  have hstart : MarksAvoid label xs (front ++ rest)
      (⟨front.getLast?, rest, front.length, []⟩ : Cursor L) :=
    ⟨List.drop_left.symm, by simp⟩
  exact (marksAvoid_of_mem_ends hp hstart hd).marked span hmark

theorem mem_marks_of_part? [DecidableEq L] {label : L} {m : Match L} {span : Span}
    (hspan : span ∈ m.part? label) : (label, span) ∈ m.marks := by
  obtain ⟨⟨other, span'⟩, hmark, rfl⟩ := Option.map_eq_some_iff.mp hspan
  obtain rfl : other = label := by simpa using List.find?_some hmark
  exact List.mem_of_find?_eq_some hmark

/-- A marked part of a match holds none of the characters that its classes avoid. -/
theorem notMem_of_found [DecidableEq L] {label : L} {xs text : List Char} {p : Pattern L}
    (hp : p.labelAvoids label xs = true) {m : Match L} (hm : p.Found text m) :
    ∀ span ∈ m.part? label, ∀ x ∈ span.slice text, x ∉ xs :=
  fun _ hspan => notMem_of_mem_marks hp hm (mem_marks_of_part? hspan)

/-! ## Common patterns -/

theorem spells_some1 {accepts : Char → Bool} {s : List Char} :
    (some1 (L := L) accepts).Spells s ↔ s ≠ [] ∧ ∀ x ∈ s, accepts x = true := by
  constructor
  · rintro ⟨_, more, rfl, ⟨x, hx, rfl⟩, hmore⟩
    exact ⟨by simp, List.forall_mem_cons.mpr ⟨hx, hmore⟩⟩
  · rintro ⟨hne, hall⟩
    obtain ⟨x, more, rfl⟩ := List.exists_cons_of_ne_nil hne
    obtain ⟨hx, hmore⟩ := List.forall_mem_cons.mp hall
    exact ⟨[x], more, rfl, ⟨x, hx, rfl⟩, hmore⟩

theorem spells_literal {text s : List Char} : (literal (L := L) text).Spells s ↔ s = text := by
  induction text generalizing s with
  | nil => exact Iff.rfl
  | cons c text ih =>
      constructor
      · rintro ⟨_, more, rfl, ⟨x, hx, rfl⟩, hmore⟩
        rw [beq_iff_eq.mp hx, ih.mp hmore]
        rfl
      · rintro rfl
        exact ⟨[c], text, rfl, ⟨c, beq_self_eq_true c, rfl⟩, ih.mpr rfl⟩

theorem spells_word {text : String} {s : List Char} :
    (word (L := L) text).Spells s ↔ s = text.toList :=
  spells_literal

/-- Of several words, a pattern describes one. -/
theorem spells_anyOf_words (texts : List String) (hne : texts ≠ []) {s : List Char}
    (h : (anyOf (L := L) (texts.map word)).Spells s) : ∃ text ∈ texts, s = text.toList := by
  induction texts with
  | nil => contradiction
  | cons text texts ih =>
      cases texts with
      | nil => exact ⟨text, List.mem_cons_self, spells_word.mp h⟩
      | cons text' texts =>
          rcases h with h | h
          · exact ⟨text, List.mem_cons_self, spells_word.mp h⟩
          · obtain ⟨found, hfound, hs⟩ := ih (by simp) h
            exact ⟨found, List.mem_cons_of_mem _ hfound, hs⟩

end Pattern

end SourceChunks
