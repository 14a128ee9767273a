import Mathlib
import SourceChunks.Proofs.Files.Discovery
import SourceChunks.Run

/-!
# The order in which directories are listed

Two trees in which the same entries are listed in different orders, in any of their directories,
have the same source files: these are found in the same order and have the same records, so their
chunks are the same.

* `Relisted`: trees that differ only in the order in which their directories are listed.
* `Relisted.refl`, `Relisted.of_perm`: the same order, and another one in the topmost directory.
* `Relisted.locate`: a path leads to the same place in both trees.
* `Selection.below_eq_of_relisted`: the source files below a directory come in one order only.
* `discover_of_relisted`: the two trees have the same source files and the same chunks.
-/

namespace SourceChunks

namespace Entry

/-! ## Trees that are listed in another order -/

/-- Two trees that differ only in the order in which their directories are listed: the same names
are listed, and the entries with one name differ only so as well. -/
inductive Relisted : Entry → Entry → Prop
  | file (bytes : ByteArray) : Relisted (file bytes) (file bytes)
  | directory {entries entries' : List (String × Entry)}
      (names : (entries.map (·.1)).Perm (entries'.map (·.1)))
      (each : ∀ name entry entry', (name, entry) ∈ entries → (name, entry') ∈ entries' →
        Relisted entry entry') :
      Relisted (directory entries) (directory entries')

theorem eq_of_mem_of_mem {entries : List (String × Entry)} {name : String} {entry entry' : Entry}
    (hdistinct : (entries.map (·.1)).Nodup) (h : (name, entry) ∈ entries)
    (h' : (name, entry') ∈ entries) : entry = entry' :=
  Option.some.inj (((lookup_eq_some_iff hdistinct).mpr h).symm.trans
    ((lookup_eq_some_iff hdistinct).mpr h'))

theorem Relisted.refl {tree : Entry} (h : tree.IsProper) : Relisted tree tree := by
  induction h with
  | file bytes => exact .file bytes
  | directory hdistinct hnames heach ih =>
      refine .directory (.refl _) fun name entry entry' hmem hmem' => ?_
      rw [← eq_of_mem_of_mem hdistinct hmem hmem']
      exact ih _ hmem

/-- The entries of a directory may be listed in any order. -/
theorem Relisted.of_perm {entries entries' : List (String × Entry)}
    (h : (Entry.directory entries).IsProper) (hperm : entries.Perm entries') :
    Relisted (.directory entries) (.directory entries') := by
  refine .directory (hperm.map _) fun name entry entry' hmem hmem' => ?_
  rw [← eq_of_mem_of_mem h.distinct hmem (hperm.mem_iff.mpr hmem')]
  exact .refl (h.of_mem hmem).2

theorem Relisted.isProper {tree tree' : Entry} (h : Relisted tree tree') (htree : tree.IsProper) :
    tree'.IsProper := by
  induction h with
  | file bytes => exact htree
  | @directory entries entries' hnames heach ih =>
      refine .directory (hnames.nodup_iff.mp htree.distinct) (fun name hname => ?_)
        fun item hitem => ?_
      · obtain ⟨item, hitem, rfl⟩ := List.mem_map.mp (hnames.mem_iff.mpr hname)
        exact (htree.of_mem hitem).1
      · obtain ⟨⟨name, entry⟩, hmem, hname⟩ :=
          List.mem_map.mp (hnames.mem_iff.mpr (List.mem_map_of_mem hitem))
        obtain rfl : name = item.1 := hname
        exact ih _ _ _ hmem hitem (htree.of_mem hmem).2

theorem Relisted.isDirectory_eq {tree tree' : Entry} (h : Relisted tree tree') :
    tree.isDirectory = tree'.isDirectory := by
  cases h <;> rfl

theorem Relisted.symm {tree tree' : Entry} (h : Relisted tree tree') : Relisted tree' tree := by
  induction h with
  | file bytes => exact .file bytes
  | directory hnames heach ih =>
      exact .directory hnames.symm fun name entry' entry hmem' hmem => ih _ _ _ hmem hmem'

/-- An entry that is listed with a name in one of the trees is so in the other. -/
theorem Relisted.exists_lookup {tree tree' entry : Entry} {name : String}
    (h : Relisted tree tree') (htree : tree.IsProper)
    (hlookup : lookup name tree.entries = some entry) :
    ∃ entry', lookup name tree'.entries = some entry' ∧ Relisted entry entry' := by
  have hmem := mem_entries_of_lookup hlookup
  have htree' := h.isProper htree
  cases h with
  | file bytes => exact absurd hmem List.not_mem_nil
  | directory hnames heach =>
      obtain ⟨⟨other, entry'⟩, hmem', rfl⟩ :=
        List.mem_map.mp (hnames.mem_iff.mp (List.mem_map_of_mem hmem))
      exact ⟨entry', (lookup_eq_some_iff htree'.distinct).mpr hmem', heach _ _ _ hmem hmem'⟩

theorem Relisted.lookup_eq_none {tree tree' : Entry} {name : String} (h : Relisted tree tree')
    (htree : tree.IsProper) (hlookup : lookup name tree.entries = none) :
    lookup name tree'.entries = none := by
  cases hlookup' : lookup name tree'.entries with
  | none => rfl
  | some entry' =>
      obtain ⟨entry, hentry, -⟩ := h.symm.exists_lookup (h.isProper htree) hlookup'
      rw [hlookup] at hentry
      contradiction

/-! ## Ways through both trees -/

/-- Ways through two trees end in the same way: with the same fault, or at the same place. -/
inductive SamePlace :
    Except AccessFault (List String × Entry) → Except AccessFault (List String × Entry) → Prop
  | error (fault : AccessFault) : SamePlace (.error fault) (.error fault)
  | ok (names : List String) {here here' : Entry} (h : Relisted here here') :
      SamePlace (.ok (names, here)) (.ok (names, here'))

/-- Directories that were gone through in both trees, which are taken by the same names. -/
def SameStep (step step' : String × Entry) : Prop :=
  step.1 = step'.1 ∧ step.2.IsProper ∧ Relisted step.2 step'.2

theorem samePlace_locateOutside (rest : List String) :
    SamePlace (locateOutside rest) (locateOutside rest) := by
  cases hplace : locateOutside rest with
  | error fault => exact .error fault
  | ok place =>
      rw [locateOutside_ok hplace]
      exact .ok _ (.refl isProper_empty)

/-- Going the same way through both trees. -/
theorem samePlace_locateFrom {above above' : List (String × Entry)} {here here' : Entry}
    (habove : List.Forall₂ SameStep above above') (hproper : here.IsProper)
    (hhere : Relisted here here') (rest : List String) :
    SamePlace (locateFrom above here rest) (locateFrom above' here' rest) := by
  induction rest generalizing above above' here here' with
  | nil =>
      have hnames : above.map (·.1) = above'.map (·.1) := by
        induction habove with
        | nil => rfl
        | cons hstep _ ih => rw [List.map_cons, List.map_cons, hstep.1, ih]
      rw [locateFrom, locateFrom, hnames]
      exact .ok _ hhere
  | cons name rest ih =>
      have hwhole := hhere
      cases hhere with
      | file bytes => exact .error _
      | @directory entries entries' hnames heach =>
          rw [locateFrom.eq_def, locateFrom.eq_def above']
          simp only
          split_ifs
          · cases habove with
            | nil => exact samePlace_locateOutside rest
            | cons hstep habove => exact ih habove hstep.2.1 hstep.2.2
          · exact .error _
          · cases hlookup : lookup name entries with
            | none =>
                have hlookup' : lookup name entries' = none :=
                  hwhole.lookup_eq_none hproper hlookup
                rw [hlookup']
                exact .error _
            | some entry =>
                obtain ⟨entry', hlookup', hentry⟩ := hwhole.exists_lookup hproper hlookup
                rw [show lookup name entries' = some entry' from hlookup']
                exact ih (.cons ⟨rfl, hproper, hwhole⟩ habove) (hproper.of_lookup hlookup).2 hentry

/-- A path leads to the same place in both trees. -/
theorem Relisted.locate {tree tree' : Entry} (h : Relisted tree tree') (htree : tree.IsProper)
    (path : Path) : SamePlace (tree.locate path) (tree'.locate path) := by
  rw [Entry.locate, Entry.locate]
  split
  · exact .error _
  · split_ifs
    · exact samePlace_locateOutside _
    · exact samePlace_locateFrom .nil htree h _

/-- The same bytes are read at a path in both trees. -/
theorem Relisted.read_eq {tree tree' : Entry} (h : Relisted tree tree') (htree : tree.IsProper)
    (path : Path) : tree.read path = tree'.read path := by
  have hplace := h.locate htree path
  rw [read, read]
  generalize tree.locate path = place, tree'.locate path = place' at hplace ⊢
  cases hplace with
  | error fault => rfl
  | ok names hhere => cases hhere <;> rfl

end Entry

/-! ## Source files of both trees -/

namespace Selection

open Entry

variable {tree tree' : Entry}

/-- The same files are listed in both trees. -/
theorem lookup_file_iff (h : Relisted tree tree') (htree : tree.IsProper) {name : String}
    {bytes : ByteArray} :
    lookup name tree.entries = some (.file bytes) ↔ lookup name tree'.entries = some (.file bytes) := by
  have hone : ∀ {tree tree' : Entry}, Relisted tree tree' → tree.IsProper →
      lookup name tree.entries = some (.file bytes) →
      lookup name tree'.entries = some (.file bytes) := by
    intro tree tree' h htree hlookup
    obtain ⟨entry', hlookup', hentry⟩ := h.exists_lookup htree hlookup
    cases hentry with
    | file bytes => exact hlookup'
  exact ⟨hone h htree, hone h.symm (h.isProper htree)⟩

theorem nodup_filter_names {p : String × Entry → Bool} {entries : List (String × Entry)}
    (h : (entries.map (·.1)).Nodup) : ((entries.filter p).map (·.1)).Nodup :=
  h.sublist (List.filter_sublist.map _)

theorem sourceNames_eq_of_relisted (s : Selection) {entries entries' : List (String × Entry)}
    (h : Relisted (.directory entries) (.directory entries'))
    (hproper : (Entry.directory entries).IsProper) :
    s.sourceNames entries = s.sourceNames entries' := by
  have hproper' := h.isProper hproper
  refine Text.sorted_eq_of_perm ((List.perm_ext_iff_of_nodup
    (nodup_filter_names hproper.distinct) (nodup_filter_names hproper'.distinct)).mpr fun name => ?_)
  have hlookup : ∀ bytes, lookup name entries = some (.file bytes) ↔
      lookup name entries' = some (.file bytes) := fun bytes => lookup_file_iff h hproper
  have hmem : name ∈ s.sourceNames entries ↔ name ∈ s.sourceNames entries' :=
    (mem_sourceNames_iff hproper.distinct).trans ((and_congr_left' (exists_congr hlookup)).trans
      (mem_sourceNames_iff hproper'.distinct).symm)
  exact (Text.sorted_perm _).mem_iff.symm.trans (hmem.trans (Text.sorted_perm _).mem_iff)

/-- The source files below the directories in a directory, if they are the same below each. -/
theorem sortedByName_belowEach_eq (s : Selection) (text : String)
    {entries entries' : List (String × Entry)}
    (h : Relisted (.directory entries) (.directory entries'))
    (hproper : (Entry.directory entries).IsProper)
    (heach : ∀ name entry entry', (name, entry) ∈ entries → (name, entry') ∈ entries' →
      s.below (text ++ "/" ++ name) entry = s.below (text ++ "/" ++ name) entry') :
    Text.sortedByName (s.belowEach text entries) = Text.sortedByName (s.belowEach text entries') := by
  have hproper' := h.isProper hproper
  have hnames : ∀ {entries : List (String × Entry)}, (entries.map (·.1)).Nodup →
      ((s.belowEach text entries).map (·.1)).Nodup := by
    intro entries hdistinct
    rw [belowEach_eq, List.map_map]
    exact nodup_filter_names hdistinct
  refine Text.sortedByName_eq_of_perm (hnames hproper.distinct) ((List.perm_ext_iff_of_nodup
    (hnames hproper.distinct).of_map (hnames hproper'.distinct).of_map).mpr fun ⟨name, found⟩ => ?_)
  rw [mem_belowEach_iff hproper.distinct, mem_belowEach_iff hproper'.distinct]
  constructor
  · rintro ⟨entry, hlookup, hdirectory, hsearched, rfl⟩
    obtain ⟨entry', hlookup', hentry⟩ := h.exists_lookup hproper hlookup
    exact ⟨entry', hlookup', hentry.isDirectory_eq ▸ hdirectory, hsearched,
      heach _ _ _ (mem_entries_of_lookup hlookup) (mem_entries_of_lookup hlookup')⟩
  · rintro ⟨entry', hlookup', hdirectory, hsearched, rfl⟩
    obtain ⟨entry, hlookup, hentry⟩ := h.symm.exists_lookup hproper' hlookup'
    exact ⟨entry, hlookup, hentry.isDirectory_eq ▸ hdirectory, hsearched,
      (heach _ _ _ (mem_entries_of_lookup hlookup) (mem_entries_of_lookup hlookup')).symm⟩

/-- The source files below a directory come in one order only. -/
theorem below_eq_of_relisted (s : Selection) (h : Relisted tree tree') (htree : tree.IsProper)
    (text : String) : s.below text tree = s.below text tree' := by
  induction h generalizing text with
  | file bytes => rfl
  | @directory entries entries' hnames heach ih =>
      have hwhole : Relisted (.directory entries) (.directory entries') := .directory hnames heach
      rw [below, below, sourceNames_eq_of_relisted s hwhole htree,
        sortedByName_belowEach_eq s text hwhole htree fun name entry entry' hmem hmem' =>
          ih name entry entry' hmem hmem' (htree.of_mem hmem).2 _]

/-- A search at a path gives the same in both trees. -/
theorem searchAt_eq_of_relisted (s : Selection) (h : Relisted tree tree') (htree : tree.IsProper)
    (path : Path) : s.searchAt tree path = s.searchAt tree' path := by
  have hplace := h.locate htree path
  have hat : ∀ {entry}, tree.at? path = some entry → entry.IsProper := htree.of_at?
  rw [at?] at hat
  rw [searchAt, searchAt, probe, probe]
  generalize tree.locate path = place, tree'.locate path = place' at hplace hat ⊢
  cases hplace with
  | error fault => rfl
  | @ok names here here' hhere =>
      have hfound : s.discoverAt path here = s.discoverAt path here' := by
        have hbelow := below_eq_of_relisted s hhere (hat rfl) path.text
        cases hhere with
        | file bytes => rfl
        | directory hnames heach => rw [discoverAt, discoverAt, hbelow]
      exact congrArg Except.ok hfound

theorem discover_eq_of_relisted (s : Selection) (h : Relisted tree tree') (htree : tree.IsProper)
    (paths : List Path) : s.discover tree paths = s.discover tree' paths := by
  rw [discover_eq, discover_eq, funext (searchAt_eq_of_relisted s h htree)]

theorem load_eq_of_relisted (s : Selection) (h : Relisted tree tree') (htree : tree.IsProper)
    (paths : List Path) : s.load tree paths = s.load tree' paths := by
  have hread : s.read? tree = s.read? tree' := by
    funext found
    rw [read?, read?, readText?, readText?, h.read_eq htree]
  rw [load, load, discover_eq_of_relisted s h htree, hread]

/-- Two trees that differ only in the order in which their directories are listed have the same
source files at all paths, in the same order and with the same records, or a search in them fails
in the same way.  So the chunks of the source files are the same, and so is what comes of a run
that divides them into those that are kept and those that are dropped. -/
theorem discover_of_relisted (s : Selection) (h : Relisted tree tree') (htree : tree.IsProper)
    (paths : List Path) :
    s.discover tree paths = s.discover tree' paths ∧
      s.load tree paths = s.load tree' paths ∧
      ∀ chunker : Chunker,
        (s.load tree paths).map chunker.chunkFiles = (s.load tree' paths).map chunker.chunkFiles ∧
          ∀ now seen dedupe, (Workflow.mk s chunker).run now tree' seen ⟨dedupe, none⟩ paths =
            { (Workflow.mk s chunker).run now tree seen ⟨dedupe, none⟩ paths with tree := tree' } := by
  have hload := load_eq_of_relisted s h htree paths
  refine ⟨discover_eq_of_relisted s h htree paths, hload, fun chunker =>
    ⟨by rw [hload], fun now seen dedupe => ?_⟩⟩
  rw [Workflow.run, Workflow.run]
  simp only [hload]
  cases s.load tree' paths with
  | error failure => rfl
  | ok sources => rfl

/-- The tree of `nestedSources` with two of its directories listed the other way round. -/
def nestedSourcesReversed : Entry :=
  .directory [("a.bal", .file "import d;".toUTF8), ("d", .directory [
    ("m.bal", .file "import a;".toUTF8),
    (".git", .directory [("x.bal", .file "import c;".toUTF8)]),
    ("e", .directory [("n.bal", .file "import b;".toUTF8)])])]

theorem relisted_nestedSources : Relisted nestedSources nestedSourcesReversed := by
  refine .directory (by decide) fun name entry entry' hmem hmem' => ?_
  have hproper := (isProper_nestedSources.of_mem hmem).2
  simp only [List.mem_cons, Prod.mk.injEq, List.not_mem_nil, or_false] at hmem hmem'
  rcases hmem with ⟨rfl, rfl⟩ | ⟨rfl, rfl⟩ <;> rcases hmem' with ⟨hname, rfl⟩ | ⟨hname, rfl⟩
  · exact absurd hname (by decide)
  · exact .of_perm hproper (List.reverse_perm _).symm
  · exact .file _
  · exact absurd hname (by decide)

/-- All source files of two directories, each of which is listed in two ways. -/
theorem discover_of_relisted_nested :
    Relisted nestedSources nestedSourcesReversed ∧ nestedSources.IsProper ∧
      (ofLists [] []).discover nestedSourcesReversed [⟨"", []⟩] =
        .ok [⟨⟨"", []⟩, ["a.bal"]⟩, ⟨⟨"", []⟩, ["d", "m.bal"]⟩, ⟨⟨"", []⟩, ["d", "e", "n.bal"]⟩] := by
  obtain ⟨hdiscover, -⟩ := discover_of_relisted (ofLists [] []) relisted_nestedSources
    isProper_nestedSources [⟨"", []⟩]
  refine ⟨relisted_nestedSources, isProper_nestedSources, hdiscover.symm.trans ?_⟩
  cbv

end Selection

end SourceChunks
