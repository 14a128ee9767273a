import Mathlib
import SourceChunks.Proofs.Document.Persistence
import SourceChunks.Proofs.Text.Order

/-!
# Documents that are loaded together

A failure is reported for its path and does not keep the other documents from being loaded,
unless it is of a sort that the load does not expect: the path can be that of no file, the bytes
of the file are no text, or its text goes beyond a limit of the reader.

* `EndsLoad`: what at a path ends the load; `endsLoad_iff`: whether its failure does.
* `batchOf`: each path with what came of it.
* `loadBatchOf_cases`: a load goes to its end, or to the first path that ends it.
* `loadBatch_isolates`: what a load of several documents gives.
-/

namespace SourceChunks

/-! ## Failures that end a load -/

/-- What is at a path ends the load of several documents. -/
inductive EndsLoad (tree : Entry) (path : Path) : Prop
  | nullCharacter (h : path.text.contains (Char.ofNat 0) = true)
  | noText {bytes : ByteArray} (hread : tree.read path = .ok bytes)
      (h : String.fromUTF8? bytes = none)
  | beyondLimit {bytes : ByteArray} {text : String} {fault : Json.Fault}
      (hread : tree.read path = .ok bytes) (htext : Encoding.utf8.readText? bytes = some text)
      (hfault : Json.parse text.toList = .error fault) (h : fault.isLimit = true)

namespace Entry

theorem locateOutside_ne_nullCharacter (names : List String) :
    locateOutside names ≠ .error .nullCharacter := by
  induction names with
  | nil => simp [locateOutside]
  | cons name names ih =>
      rw [locateOutside]
      split_ifs
      · exact ih
      · simp
      · simp

theorem locateFrom_ne_nullCharacter (above : List (String × Entry)) (here : Entry)
    (names : List String) : locateFrom above here names ≠ .error .nullCharacter := by
  induction names generalizing above here with
  | nil => cases here <;> simp [locateFrom]
  | cons name names ih =>
      cases here with
      | file bytes => simp [locateFrom]
      | directory entries =>
          rw [locateFrom.eq_def]
          simp only
          split_ifs
          · cases above with
            | nil => exact locateOutside_ne_nullCharacter names
            | cons parent above => exact ih above parent.2
          · simp
          · cases lookup name entries with
            | none => simp
            | some entry => exact ih _ entry

theorem textFault_eq_nullCharacter {text : String} :
    textFault? text = some .nullCharacter ↔ text.contains (Char.ofNat 0) = true := by
  unfold textFault?
  split_ifs with hnull
  · exact iff_of_true rfl hnull
  · exact iff_of_false (by simp) hnull
  · exact iff_of_false (by simp) hnull

/-- A path has the fault of the null character exactly if it holds one. -/
theorem read_nullCharacter_iff {tree : Entry} {path : Path} :
    (∃ failure, tree.read path = .error failure ∧ failure.fault = .nullCharacter) ↔
      path.text.contains (Char.ofNat 0) = true := by
  have hlocate : tree.locate path = .error .nullCharacter ↔
      path.text.contains (Char.ofNat 0) = true := by
    rw [← textFault_eq_nullCharacter, locate]
    cases textFault? path.text with
    | some fault => simp only [Except.error.injEq, Option.some.injEq]
    | none =>
        refine iff_of_false (fun h => ?_) (by simp)
        simp only at h
        split_ifs at h
        · exact locateOutside_ne_nullCharacter _ h
        · exact locateFrom_ne_nullCharacter _ _ _ h
  rw [← hlocate, read]
  cases tree.locate path with
  | error fault =>
      constructor
      · rintro ⟨failure, hfailure, hfault⟩
        rw [← Except.error.inj hfailure] at hfault
        exact congrArg Except.error hfault
      · intro h
        exact ⟨⟨fault, path⟩, rfl, Except.error.inj h⟩
  | ok found =>
      obtain ⟨names, entry⟩ := found
      cases entry with
      | file bytes => exact iff_of_false (by simp) (by simp)
      | directory entries =>
          refine iff_of_false ?_ (by simp)
          rintro ⟨failure, hfailure, hfault⟩
          rw [← Except.error.inj hfailure] at hfault
          contradiction

end Entry

section

variable {now : Timestamp} {tree : Entry} {path : Path} {paths : List Path}

/-- The failure at a path ends a load exactly if it is of one of these sorts. -/
theorem endsLoad_iff (now : Timestamp) : EndsLoad tree path ↔
    ∃ failure, loadDocument now tree path = .error failure ∧ failure.endsBatch = true := by
  constructor
  · intro h
    cases h with
    | nullCharacter hnull =>
        obtain ⟨failure, hread, hfault⟩ := Entry.read_nullCharacter_iff.mpr hnull
        refine ⟨.unreadable failure, by rw [loadDocument, hread], ?_⟩
        exact decide_eq_true hfault
    | noText hread hnone =>
        refine ⟨.undecodable, ?_, rfl⟩
        simp only [loadDocument, hread, Encoding.readText?, Encoding.decode?, hnone,
          Option.map_none]
    | beyondLimit hread htext hfault hlimit =>
        refine ⟨.noDocument (.malformed _), ?_, hlimit⟩
        simp only [loadDocument, hread, htext, Document.parse, hfault]
        rfl
  · rintro ⟨failure, hload, hends⟩
    rw [loadDocument] at hload
    cases hread : tree.read path with
    | error unread =>
        rw [hread] at hload
        obtain rfl := Except.error.inj hload
        exact .nullCharacter
          (Entry.read_nullCharacter_iff.mp ⟨unread, hread, of_decide_eq_true hends⟩)
    | ok bytes =>
        rw [hread] at hload
        simp only at hload
        cases htext : Encoding.utf8.readText? bytes with
        | none => exact .noText hread (Option.map_eq_none_iff.mp htext)
        | some text =>
            rw [htext] at hload
            simp only [Document.parse] at hload
            cases hparse : Json.parse text.toList with
            | error fault =>
                rw [hparse] at hload
                obtain rfl := Except.error.inj hload
                exact .beyondLimit hread htext hparse hends
            | ok json =>
                rw [hparse] at hload
                simp only at hload
                cases hjson : Document.ofJson now json with
                | valid document => rw [hjson] at hload; contradiction
                | invalid issues =>
                    rw [hjson] at hload
                    obtain rfl := Except.error.inj hload
                    contradiction

/-! ## Loads -/

/-- What is loaded from the files at some paths. -/
def loadedOf (now : Timestamp) (tree : Entry) (paths : List Path) : List (Path × Document) :=
  paths.filterMap fun path =>
    match loadDocument now tree path with
    | .ok document => some (path, document)
    | .error _ => none

/-- What keeps documents from being loaded from the files at some paths. -/
def failedOf (now : Timestamp) (tree : Entry) (paths : List Path) : List (Path × LoadFailure) :=
  paths.filterMap fun path =>
    match loadDocument now tree path with
    | .ok _ => none
    | .error failure => some (path, failure)

@[simp] theorem loadedOf_append (now : Timestamp) (tree : Entry) (front rest : List Path) :
    loadedOf now tree (front ++ rest) = loadedOf now tree front ++ loadedOf now tree rest :=
  List.filterMap_append

@[simp] theorem failedOf_append (now : Timestamp) (tree : Entry) (front rest : List Path) :
    failedOf now tree (front ++ rest) = failedOf now tree front ++ failedOf now tree rest :=
  List.filterMap_append

@[simp] theorem mem_loadedOf {document : Document} : (path, document) ∈ loadedOf now tree paths ↔
    path ∈ paths ∧ loadDocument now tree path = .ok document := by
  rw [loadedOf, List.mem_filterMap]
  constructor
  · rintro ⟨other, hother, h⟩
    cases hload : loadDocument now tree other with
    | ok found =>
        rw [hload] at h
        obtain ⟨rfl, rfl⟩ := Prod.mk.inj (Option.some.inj h)
        exact ⟨hother, hload⟩
    | error failure => rw [hload] at h; contradiction
  · rintro ⟨hpath, hload⟩
    exact ⟨path, hpath, by rw [hload]⟩

@[simp] theorem mem_failedOf {failure : LoadFailure} : (path, failure) ∈ failedOf now tree paths ↔
    path ∈ paths ∧ loadDocument now tree path = .error failure := by
  rw [failedOf, List.mem_filterMap]
  constructor
  · rintro ⟨other, hother, h⟩
    cases hload : loadDocument now tree other with
    | ok document => rw [hload] at h; contradiction
    | error found =>
        rw [hload] at h
        obtain ⟨rfl, rfl⟩ := Prod.mk.inj (Option.some.inj h)
        exact ⟨hother, hload⟩
  · rintro ⟨hpath, hload⟩
    exact ⟨path, hpath, by rw [hload]⟩

/-- Each path has a document or a failure. -/
theorem paths_perm (now : Timestamp) (tree : Entry) (paths : List Path) :
    ((loadedOf now tree paths).map (·.1) ++ (failedOf now tree paths).map (·.1)).Perm paths := by
  induction paths with
  | nil => exact List.Perm.refl _
  | cons path paths ih =>
      rw [loadedOf, failedOf, List.filterMap_cons, List.filterMap_cons]
      cases loadDocument now tree path with
      | ok document => exact ih.cons path
      | error failure => exact List.perm_middle.trans (ih.cons path)

/-- A load goes to its end, or to the first path that ends it. -/
theorem loadBatchOf_cases (now : Timestamp) (tree : Entry) (paths : List Path) :
    ((∀ path ∈ paths, ¬ EndsLoad tree path) ∧
      loadBatchOf now tree paths = .ok ⟨loadedOf now tree paths, failedOf now tree paths⟩) ∨
    ∃ front path rest failure, paths = front ++ path :: rest ∧
      (∀ earlier ∈ front, ¬ EndsLoad tree earlier) ∧ EndsLoad tree path ∧
      loadDocument now tree path = .error failure ∧
      loadBatchOf now tree paths = .error failure := by
  induction paths with
  | nil => exact .inl ⟨List.forall_mem_nil _, rfl⟩
  | cons path paths ih =>
      by_cases hends : EndsLoad tree path
      · obtain ⟨failure, hload, hfailure⟩ := (endsLoad_iff now).mp hends
        refine .inr ⟨[], path, paths, failure, rfl, List.forall_mem_nil _, hends, hload, ?_⟩
        rw [loadBatchOf, hload]
        exact if_pos hfailure
      · -- The load goes on behind a document, and behind a failure that does not end it.
        have hstep : loadBatchOf now tree (path :: paths) =
            (loadBatchOf now tree paths).map fun batch =>
              ⟨loadedOf now tree [path] ++ batch.loaded, failedOf now tree [path] ++ batch.failed⟩ := by
          rw [loadBatchOf, loadedOf, failedOf]
          cases hload : loadDocument now tree path with
          | ok document => simp [hload]
          | error failure =>
              have hfailure : ¬ failure.endsBatch = true :=
                fun hfailure => hends ((endsLoad_iff now).mpr ⟨failure, hload, hfailure⟩)
              simp [hload, hfailure]
        rw [hstep]
        rcases ih with ⟨hrest, hbatch⟩ |
          ⟨front, other, rest, failure, rfl, hfront, hother, hload, hbatch⟩
        · refine .inl ⟨List.forall_mem_cons.mpr ⟨hends, hrest⟩, ?_⟩
          rw [hbatch]
          show _ = Except.ok (Batch.mk (loadedOf now tree ([path] ++ paths))
            (failedOf now tree ([path] ++ paths)))
          rw [loadedOf_append, failedOf_append]
          rfl
        · refine .inr ⟨path :: front, other, rest, failure, rfl,
            List.forall_mem_cons.mpr ⟨hends, hfront⟩, hother, hload, ?_⟩
          rw [hbatch]
          rfl

/-- What a load of several documents gives.

* It comes to its end exactly if nothing at its paths ends it.
* Then every path has either a document or a failure, and no other path has; and it has what
  would come of loading its document alone.
* Otherwise the load fails as the first path does that ends it. -/
theorem loadBatch_isolates (now : Timestamp) (tree : Entry) (paths : List Path) :
    ((∃ batch, loadBatch now tree paths = .ok batch) ↔ ∀ path ∈ paths, ¬ EndsLoad tree path) ∧
    (∀ batch, loadBatch now tree paths = .ok batch →
      (batch.loaded.map (·.1) ++ batch.failed.map (·.1)).Nodup ∧
      (∀ path, path ∈ batch.loaded.map (·.1) ++ batch.failed.map (·.1) ↔ path ∈ paths) ∧
      (∀ path document, (path, document) ∈ batch.loaded ↔
        path ∈ paths ∧ loadDocument now tree path = .ok document) ∧
      ∀ path failure, (path, failure) ∈ batch.failed ↔
        path ∈ paths ∧ loadDocument now tree path = .error failure) ∧
    ∀ failure, loadBatch now tree paths = .error failure →
      ∃ front path rest, paths.eraseDups = front ++ path :: rest ∧
        (∀ earlier ∈ front, ¬ EndsLoad tree earlier) ∧ EndsLoad tree path ∧
        loadDocument now tree path = .error failure := by
  have hends : (∀ path ∈ paths.eraseDups, ¬ EndsLoad tree path) ↔
      ∀ path ∈ paths, ¬ EndsLoad tree path := by
    simp only [List.mem_eraseDups]
  rw [loadBatch, ← hends]
  rcases loadBatchOf_cases now tree paths.eraseDups with ⟨hnone, hbatch⟩ |
    ⟨front, path, rest, failure, hsplit, hfront, hpath, hload, hbatch⟩
  · have hperm := paths_perm now tree paths.eraseDups
    rw [hbatch]
    refine ⟨iff_of_true ⟨_, rfl⟩ hnone, fun batch h => ?_, nofun⟩
    obtain rfl := Except.ok.inj h
    refine ⟨hperm.nodup_iff.mpr (nodup_eraseDups paths), fun path => ?_, fun path document => ?_,
      fun path failure => ?_⟩
    · rw [hperm.mem_iff, List.mem_eraseDups]
    · rw [mem_loadedOf, List.mem_eraseDups]
    · rw [mem_failedOf, List.mem_eraseDups]
  · rw [hbatch]
    refine ⟨iff_of_false nofun fun hnone => ?_, nofun, fun failure' h => ?_⟩
    · exact hnone path (by rw [hsplit]; simp) hpath
    · obtain rfl := Except.error.inj h
      exact ⟨front, path, rest, hsplit, hfront, hpath, hload⟩

end

/-! ## A file that is no text -/

/-- An empty list of chunks, and a file of one byte that begins no character. -/
def undecodableTree : Entry :=
  .directory [("good.json", .file "[]".toUTF8), ("bad.json", .file ⟨#[0xff]⟩)]

/-- Where a file of that tree is, and one that is not there. -/
theorem locate_undecodableTree :
    undecodableTree.locate ⟨"", ["good.json"]⟩ = .ok (["good.json"], .file "[]".toUTF8) ∧
      undecodableTree.locate ⟨"", ["bad.json"]⟩ = .ok (["bad.json"], .file ⟨#[0xff]⟩) ∧
      undecodableTree.locate ⟨"", ["none.json"]⟩ = .error .absent := by
  have hfault : ∀ name ∈ ["good.json", "bad.json", "none.json"],
      Entry.textFault? (Path.text ⟨"", [name]⟩) = none := by
    intro name hname
    rw [Entry.textFault?, String.contains_char_eq]
    revert name
    decide
  simp only [List.forall_mem_cons] at hfault
  obtain ⟨hgood, hbad, hnone, -⟩ := hfault
  refine ⟨?_, ?_, ?_⟩
  · rw [Entry.locate, hgood]
    rfl
  · rw [Entry.locate, hbad]
    rfl
  · rw [Entry.locate, hnone]
    rfl

/-- The empty list of chunks is loaded. -/
theorem loadDocument_undecodableTree :
    loadDocument newYear undecodableTree ⟨"", ["good.json"]⟩ =
      .ok (Document.ofChunks newYear none []) := by
  have hread : undecodableTree.read ⟨"", ["good.json"]⟩ = .ok "[]".toUTF8 := by
    rw [Entry.read, locate_undecodableTree.1]
  rw [loadDocument_of_read (by decide) hread]
  rfl

/-- A document is loaded although there is nothing at the path before it. -/
theorem loadBatch_isolates_absent :
    ∃ batch, loadBatch newYear undecodableTree [⟨"", ["none.json"]⟩, ⟨"", ["good.json"]⟩] = .ok batch ∧
      (⟨"", ["good.json"]⟩, Document.ofChunks newYear none []) ∈ batch.loaded := by
  have hnone : loadDocument newYear undecodableTree ⟨"", ["none.json"]⟩ =
      .error (.unreadable ⟨.absent, ⟨"", ["none.json"]⟩⟩) := by
    rw [loadDocument, Entry.read, locate_undecodableTree.2.2]
  obtain ⟨hiff, hbatch, -⟩ := loadBatch_isolates newYear undecodableTree
    [⟨"", ["none.json"]⟩, ⟨"", ["good.json"]⟩]
  obtain ⟨batch, hok⟩ := hiff.mpr fun path hpath hends => by
    obtain ⟨failure, hload, hfailure⟩ := (endsLoad_iff newYear).mp hends
    rcases List.mem_pair.mp hpath with rfl | rfl
    · rw [hnone] at hload
      obtain rfl := Except.error.inj hload
      contradiction
    · rw [loadDocument_undecodableTree] at hload
      contradiction
  exact ⟨batch, hok, ((hbatch batch hok).2.2.1 _ _).mpr ⟨by decide, loadDocument_undecodableTree⟩⟩

/-- Behind a file that is no text, no document is loaded. -/
theorem loadBatch_undecodableTree :
    (∃ document, loadDocument newYear undecodableTree ⟨"", ["good.json"]⟩ = .ok document) ∧
      ¬ ∃ batch, loadBatch newYear undecodableTree [⟨"", ["bad.json"]⟩, ⟨"", ["good.json"]⟩] =
        .ok batch := by
  have hbad : loadDocument newYear undecodableTree ⟨"", ["bad.json"]⟩ = .error .undecodable := by
    have hnone : String.fromUTF8? ⟨#[0xff]⟩ = none := by decide +kernel
    rw [loadDocument, Entry.read, locate_undecodableTree.2.1]
    simp only [Encoding.readText?, Encoding.decode?, hnone, Option.map_none]
  refine ⟨⟨_, loadDocument_undecodableTree⟩, ?_⟩
  rintro ⟨batch, h⟩
  rw [loadBatch, List.eraseDups_cons, loadBatchOf, hbad] at h
  contradiction

end SourceChunks
