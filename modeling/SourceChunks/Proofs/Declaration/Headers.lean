import Mathlib
import SourceChunks.Declaration.Locate
import SourceChunks.Proofs.Pattern.Ends
import SourceChunks.Proofs.Source.Blocks
import SourceChunks.Proofs.Source.Scan
import SourceChunks.Proofs.Text.Blank

/-!
# Headers hold no braces

What the patterns of declarations are built from passes over words, white space and a few
other characters, but not over braces.  Only the path of a service may be a string, and in
the mask of a text that string is blank.

* `Patterns.reads_noBrace`: what a pattern passes over, if its classes hold no braces.
* `Patterns.passes_classDefinition`: the header of a class holds no braces.
* `Patterns.passesOn_service`: in a mask, the header of a service holds no braces and no
  semicolons.
* `Patterns.passes_service`: in particular, it holds no braces.
-/

namespace SourceChunks

namespace Patterns

open Pattern

variable {sort : Char → Prop}

/-! ## Braces -/

/-- A character that is no brace. -/
def NoBrace (x : Char) : Prop :=
  x ≠ '{' ∧ x ≠ '}'

theorem noBrace_of_isBlank (x : Char) (hx : Text.isBlank x = true) : NoBrace x := by
  constructor
  · rintro rfl
    exact absurd hx (by decide)
  · rintro rfl
    exact absurd hx (by decide)

theorem reads_noBrace {p : Pattern Part} (h : p.avoids ['{', '}'] = true) : p.Reads NoBrace :=
  reads_of_avoids (fun x hx => by simpa [NoBrace] using hx) h

/-- A character that is no brace and no semicolon. -/
def NoStop (x : Char) : Prop :=
  NoBrace x ∧ x ≠ ';'

theorem noStop_of_isBlank (x : Char) (hx : Text.isBlank x = true) : NoStop x := by
  refine ⟨noBrace_of_isBlank x hx, ?_⟩
  rintro rfl
  exact absurd hx (by decide)

theorem reads_noStop {p : Pattern Part} (h : p.avoids ['{', '}', ';'] = true) :
    p.Reads NoStop :=
  reads_of_avoids (fun x hx => by simpa [NoStop, NoBrace, and_assoc] using hx) h

theorem passes_classDefinition {c d : Cursor Part} (hd : d ∈ ends classDefinition c) :
    Cursor.Passes NoBrace c d :=
  passes_of_mem_ends (reads_noBrace (by decide)) hd

/-! ## The header of a service -/

/-- Behind a character of a sort, a pattern that passes only over such characters ends
behind one. -/
theorem before_of_passes {c d : Cursor Part} (h : Cursor.Passes sort c d)
    (hc : ∃ x, c.before = some x ∧ sort x) : ∃ x, d.before = some x ∧ sort x := by
  obtain ⟨passed, hlead, hsort⟩ := h
  rw [hlead.before_eq]
  cases hlast : passed.getLast? with
  | none => exact hc
  | some x => exact ⟨x, rfl, hsort x (List.mem_of_getLast? hlast)⟩

theorem before_of_mem_some1 {accepts : Char → Bool} {c d : Cursor Part}
    (hd : d ∈ ends (some1 accepts) c) : ∃ x, d.before = some x ∧ accepts x = true := by
  obtain ⟨e, he, hd⟩ := List.mem_flatMap.mp hd
  refine before_of_passes (passes_of_mem_ends (p := run accepts) (fun x hx => hx) hd) ?_
  obtain ⟨x, rest, -, hx, rfl⟩ := mem_ends_one.mp he
  exact ⟨x, rfl, hx⟩

theorem before_of_mem_literal {text : List Char} (hne : text ≠ [])
    (hword : ∀ x ∈ text, Text.isWord x = true) {c d : Cursor Part}
    (hd : d ∈ ends (literal text) c) : ∃ x, d.before = some x ∧ Text.isWord x = true := by
  cases text with
  | nil => contradiction
  | cons y text =>
      obtain ⟨e, he, hd⟩ := List.mem_flatMap.mp hd
      have hrest := reads_literal (L := Part) fun x hx => hword x (List.mem_cons_of_mem y hx)
      refine before_of_passes (passes_of_mem_ends hrest hd) ?_
      obtain ⟨x, rest, -, hx, rfl⟩ := mem_ends_one.mp he
      exact ⟨x, rfl, by rw [beq_iff_eq.mp hx]; exact hword y List.mem_cons_self⟩

/-- What comes before the path of a service. -/
def serviceLead : Pattern Part :=
  edge ++ qualifiers ["isolated"] ++ word "service" ++ edge ++
    notAhead (blanks ++ anyOf [word "class", word "object"] ++ edge) ++
    maybe (blanks ++ some1 Text.isWord ++ one (· == ':') ++ some1 Text.isWord)

/-- The path or name of a service. -/
def servicePlace : Pattern Part :=
  maybe (either (spaces ++ mark .path servicePath)
    (blanks ++ mark .identifier (notAhead (word "on" ++ edge) ++ some1 Text.isWord)))

/-- The word before the listener of a service. -/
def serviceListener : Pattern Part :=
  maybe (mark .listener (blanks ++ word "on" ++ edge))

theorem service_eq : service = serviceLead ++ servicePlace ++ serviceListener := rfl

/-- What comes before the path of a service ends with a word. -/
theorem before_of_mem_serviceLead {c d : Cursor Part} (hd : d ∈ ends serviceLead c) :
    ∃ x, d.before = some x ∧ Text.isWord x = true := by
  obtain ⟨e, he, hd⟩ := List.mem_flatMap.mp hd
  rcases List.mem_append.mp hd with hd | hd
  · obtain ⟨f, -, hd⟩ := List.mem_flatMap.mp hd
    exact before_of_mem_some1 hd
  · obtain rfl := List.mem_singleton.mp hd
    obtain ⟨f, hf, he⟩ := List.mem_flatMap.mp he
    obtain ⟨g, hg, hf⟩ := List.mem_flatMap.mp hf
    obtain ⟨h, -, hg⟩ := List.mem_flatMap.mp hg
    rw [(eq_of_mem_ite he).2, (eq_of_mem_ite hf).2]
    have hword : "service".toList.all Text.isWord = true := by decide
    exact before_of_mem_literal (by decide) (List.all_eq_true.mp hword) hg

/-- A string of some characters, from its quote to the next one. -/
theorem exists_of_mem_quoted {c d : Cursor Part}
    (hd : d ∈ ends (one (· == '"') ++ run (fun x => x != '"' && x != '\n') ++ one (· == '"')) c) :
    ∃ interior, Cursor.Leads ('"' :: (interior ++ ['"'])) c d ∧ '"' ∉ interior ∧
      '\n' ∉ interior := by
  obtain ⟨e, he, hd⟩ := List.mem_flatMap.mp hd
  obtain ⟨f, hf, he⟩ := List.mem_flatMap.mp he
  have hquote : ∀ {c d : Cursor Part}, d ∈ ends (one (· == '"')) c → Cursor.Leads ['"'] c d := by
    intro c d hd
    obtain ⟨x, rest, hrest, hx, rfl⟩ := mem_ends_one.mp hd
    rw [← beq_iff_eq.mp hx]
    exact Cursor.leads_advance hrest
  have hsort : (run (L := Part) fun x => x != '"' && x != '\n').Reads
      fun x => x ≠ '"' ∧ x ≠ '\n' := fun x hx => by simpa using hx
  obtain ⟨interior, hlead, hinterior⟩ := passes_of_mem_ends hsort he
  refine ⟨interior, ((hquote hf).trans hlead).trans (hquote hd), ?_, ?_⟩
  · exact fun hmem => (hinterior '"' hmem).1 rfl
  · exact fun hmem => (hinterior '\n' hmem).2 rfl

/-- In a mask, what a service has between the word before its path and its body holds no braces
and no semicolons. -/
theorem passes_servicePlace {text front : List Char} {c d : Cursor Part}
    (hmask : mask text = front ++ c.rest)
    (hbefore : ∃ x, front.getLast? = some x ∧ Text.isWord x = true)
    (hd : d ∈ ends servicePlace c) : Cursor.Passes NoStop c d := by
  rcases List.mem_append.mp hd with hd | hd
  · rcases List.mem_append.mp hd with hd | hd
    · obtain ⟨e, he, hd⟩ := List.mem_flatMap.mp hd
      obtain ⟨f, hf, rfl⟩ := List.mem_map.mp hd
      have hspaces : spaces.Reads fun x => Text.isBlank x = true := fun x hx => hx
      obtain ⟨gap, hlead, hgap⟩ := passes_of_mem_ends hspaces he
      have hgap' : Cursor.Passes NoStop c e :=
        ⟨gap, hlead, fun x hx => noStop_of_isBlank x (hgap x hx)⟩
      suffices hpath : Cursor.Passes NoStop e f by
        obtain ⟨passed, hpassed, hsort⟩ := hpath
        exact hgap'.trans ⟨passed, hpassed.withMark .path, hsort⟩
      rcases List.mem_append.mp hf with hf | hf
      · exact passes_of_mem_ends (reads_noStop (by decide)) hf
      · obtain ⟨interior, hquoted, hquote, hline⟩ := exists_of_mem_quoted hf
        obtain ⟨x, hx, hword⟩ := hbefore
        obtain ⟨front, rfl⟩ := List.getLast?_eq_some_iff.mp hx
        have hsplit : mask text =
            front ++ x :: (gap ++ '"' :: (interior ++ '"' :: f.rest)) := by
          rw [hmask, hlead.rest_eq, hquoted.rest_eq]
          simp
        have hinterior : ∀ y ∈ interior, y = ' ' :=
          blank_between_quotes hsplit (Text.isBlank_of_isWord hword) (by rintro rfl; contradiction)
            (by rintro rfl; contradiction) hgap hquote hline
        refine ⟨_, hquoted, fun y hy => ?_⟩
        rcases List.mem_cons.mp hy with rfl | hy
        · exact ⟨⟨by decide, by decide⟩, by decide⟩
        · rcases List.mem_append.mp hy with hy | hy
          · rw [hinterior y hy]
            exact ⟨⟨by decide, by decide⟩, by decide⟩
          · rw [List.mem_singleton.mp hy]
            exact ⟨⟨by decide, by decide⟩, by decide⟩
    · exact passes_of_mem_ends (reads_noStop (by decide)) hd
  · rw [List.mem_singleton.mp hd]
    exact .refl c

/-- In a mask, the header of a service holds no braces and no semicolons. -/
theorem passesOn_service {text front : List Char} {c d : Cursor Part}
    (hmask : mask text = front ++ c.rest) (hbefore : c.before = front.getLast?)
    (hd : d ∈ ends service c) : Cursor.Passes NoStop c d := by
  rw [service_eq] at hd
  obtain ⟨e, he, hd⟩ := List.mem_flatMap.mp hd
  obtain ⟨f, hf, he⟩ := List.mem_flatMap.mp he
  have hlead : Cursor.Passes NoStop c f := passes_of_mem_ends (reads_noStop (by decide)) hf
  have hplace : Cursor.Passes NoStop f e := by
    obtain ⟨passed, hpassed, -⟩ := hlead
    have hsplit : mask text = front ++ passed ++ f.rest := by
      rw [hmask, hpassed.rest_eq, List.append_assoc]
    refine passes_servicePlace hsplit ?_ he
    rw [List.getLast?_append, ← hbefore, ← hpassed.before_eq]
    exact before_of_mem_serviceLead hf
  exact (hlead.trans hplace).trans (passes_of_mem_ends (reads_noStop (by decide)) hd)

/-- In a mask, the header of a service holds no braces. -/
theorem passes_service {text front : List Char} {c d : Cursor Part}
    (hmask : mask text = front ++ c.rest) (hbefore : c.before = front.getLast?)
    (hd : d ∈ ends service c) : Cursor.Passes NoBrace c d := by
  obtain ⟨passed, hpassed, hsort⟩ := passesOn_service hmask hbefore hd
  exact ⟨passed, hpassed, fun x hx => (hsort x hx).1⟩

end Patterns

end SourceChunks
