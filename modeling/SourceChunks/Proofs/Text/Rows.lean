import Mathlib

/-!
# Rows put together from parts

A part that goes up to the first place of a letter is found again.  What is done to a row part by
part is done to each of several rows that are joined, and to what is put between them.

* `append_unique`: two parts that go up to the first place of the same letter.
* `intercalate_of_append`: an operation on rows that are joined.
* `mem_of_mem_intercalate`: where a letter of joined rows comes from.
-/

namespace SourceChunks

variable {α β : Type}

/-- What goes up to the first place of a letter ends there. -/
theorem takeWhile_append_of_notMem [DecidableEq α] {d : α} {body rest : List α} (hbody : d ∉ body)
    (hrest : rest = [] ∨ rest.head? = some d) : (body ++ rest).takeWhile (· != d) = body := by
  have hstop : rest.takeWhile (· != d) = [] := by
    cases rest with
    | nil => rfl
    | cons c rest =>
        obtain rfl : c = d := by simpa using hrest
        simp
  rw [List.takeWhile_append_of_pos fun c hc => bne_iff_ne.mpr (ne_of_mem_of_not_mem hc hbody),
    hstop, List.append_nil]

/-- Two parts that go up to the first place of the same letter are one. -/
theorem append_unique [DecidableEq α] {d : α} {body body' rest rest' : List α} (hbody : d ∉ body)
    (hbody' : d ∉ body') (hrest : rest = [] ∨ rest.head? = some d)
    (hrest' : rest' = [] ∨ rest'.head? = some d) (h : body ++ rest = body' ++ rest') :
    body = body' ∧ rest = rest' := by
  obtain rfl : body = body' := by
    rw [← takeWhile_append_of_notMem hbody hrest, h, takeWhile_append_of_notMem hbody' hrest']
  exact ⟨rfl, List.append_cancel_left h⟩

/-- What is done to a row part by part is done to each of the rows that are joined. -/
theorem intercalate_of_append {f : List α → List β} (hnil : f [] = [])
    (happend : ∀ s t, f (s ++ t) = f s ++ f t) (sep : List α) (rows : List (List α)) :
    f (List.intercalate sep rows) = List.intercalate (f sep) (rows.map f) := by
  induction rows with
  | nil => exact hnil
  | cons row rows ih =>
      cases rows with
      | nil => simp
      | cons next rows =>
          rw [List.intercalate_cons_cons, happend, happend, ih]
          exact List.intercalate_cons_cons.symm

/-- A letter of joined rows is one of a row, or of what is put between them. -/
theorem mem_of_mem_intercalate {sep : List α} {rows : List (List α)} {a : α}
    (h : a ∈ List.intercalate sep rows) : a ∈ sep ∨ ∃ row ∈ rows, a ∈ row := by
  induction rows with
  | nil => simp at h
  | cons row rows ih =>
      cases rows with
      | nil => exact .inr ⟨row, List.mem_cons_self, by simpa using h⟩
      | cons next rows =>
          rw [List.intercalate_cons_cons, List.mem_append, List.mem_append] at h
          rcases h with (hrow | hsep) | hrest
          · exact .inr ⟨row, List.mem_cons_self, hrow⟩
          · exact .inl hsep
          · exact (ih hrest).imp_right fun ⟨r, hr, ha⟩ => ⟨r, List.mem_cons_of_mem _ hr, ha⟩

end SourceChunks
