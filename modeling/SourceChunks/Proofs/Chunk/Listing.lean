import Mathlib
import SourceChunks.Proofs.Chunk.Bounding
import SourceChunks.Proofs.Declaration.Listing

/-!
# The order of a listing

A listing without parts is made of groups, one for each declaration of the text: the signature
and the body of a function or resource, or a single chunk.  The groups come kind after kind,
each service is followed by its resources, and within a kind and within a service they are in
the order of the text, by offsets as well as by lines and columns.

* `Ascending`: the declarations of one kind in the order of the text.
* `ascending_found`, `ascending_serviceGroups`: the runs of a listing.
* `chunks_in_order`: a listing, run by run and group by group.
-/

namespace SourceChunks

/-- The declarations of one kind in the order of the text: each begins before all later ones,
and on an earlier line or in an earlier column of the same line. -/
structure Ascending (text : List Char) (kind : Kind) (ds : List (Declaration String)) : Prop where
  kinds : ∀ d ∈ ds, d.kind = kind
  starts : ds.Pairwise (·.span.start < ·.span.start)
  positions : ds.Pairwise fun d d' =>
    (positionOf (LineIndex.ofText text) d.span).first <
      (positionOf (LineIndex.ofText text) d'.span).first

section

variable {text : List Char}

/-- What is in order by its offsets is in order by its lines and columns. -/
theorem ascending_of_inOrder {kind : Kind} {ds : List (Declaration String)}
    (h : Locate.InOrder ds) (hfound : ∀ d ∈ ds, d ∈ found text kind) : Ascending text kind ds where
  kinds := fun d hd => kind_of_mem_found (hfound d hd)
  starts := h.starts
  positions := by
    refine h.starts.imp_of_mem fun {d d'} _ hd' hlt => first_positionOf_lt hlt ?_
    have hspan := start_lt_stop_of_mem_found (hfound d' hd')
    have hstop := stop_le_of_mem_found (hfound d' hd')
    omega

theorem ascending_found {kind : Kind} (hkind : kind ≠ .resource) (text : List Char) :
    Ascending text kind (found text kind) :=
  ascending_of_inOrder (found_inOrder hkind text) fun _ hd => hd

theorem ascending_serviceGroups {group : Declaration String × List (Declaration String)}
    (hgroup : group ∈ serviceGroups text) : Ascending text .resource group.2 :=
  ascending_of_inOrder (serviceGroups_inOrder hgroup) (mem_found_of_mem_serviceGroups hgroup).2

end

/-- A listing without parts is made of the groups of the declarations of a text: kind after
kind, with each service before its resources.  Within a kind, and among the resources of a
service, they are in the order of the text.  A group is the signature and the body of a
function or resource, which differ in their role, text and hash only, or a single chunk; and
all chunks tell where they come from. -/
theorem chunks_in_order {limit : Limit} {file text : String}
    (h : ∀ chunk ∈ chunkText limit file text, chunk.part = none) :
    (chunkText limit file text =
      (found text.toList .importClause ++ found text.toList .configurable ++
        found text.toList .moduleVariable ++ found text.toList .typeDefinition ++
        found text.toList .function ++
        (serviceGroups text.toList).flatMap (fun group => group.1 :: group.2) ++
        found text.toList .classDefinition ++ found text.toList .constant).flatMap
          (chunksOf file text.toList (LineIndex.ofText text.toList))) ∧
    (∀ kind ≠ .resource, Ascending text.toList kind (found text.toList kind)) ∧
    (serviceGroups text.toList).map Prod.fst = found text.toList .service ∧
    (∀ group ∈ serviceGroups text.toList, Ascending text.toList .resource group.2) ∧
    ∀ d, IsGroup d.kind (chunksOf file text.toList (LineIndex.ofText text.toList) d) ∧
      ∀ chunk ∈ chunksOf file text.toList (LineIndex.ofText text.toList) d,
        chunk.Describes file (LineIndex.ofText text.toList) d := by
  refine ⟨?_, fun kind hkind => ascending_found hkind _, services_of_serviceGroups _,
    fun group hgroup => ascending_serviceGroups hgroup, fun d => ⟨?_, fun chunk hchunk => ?_⟩⟩
  · rw [chunkText_of_unnumbered h, wholeChunks, declarationsOf_eq]
  · exact isGroup_chunksOf _ _ _ _
  · exact describes_of_mem_chunksOf hchunk

/-- A service with two resources, in front of an import. -/
def twoResources : String :=
  "service /s \x7b resource function get x() \x7b\x7d resource function get y() \x7b\x7d \x7d\nimport b;"

theorem chunks_in_order_twoResources :
    (∀ chunk ∈ chunkText .standard "a.bal" twoResources, chunk.part = none) ∧
      (∀ kind ≠ .resource, Ascending twoResources.toList kind (found twoResources.toList kind)) ∧
      ∀ group ∈ serviceGroups twoResources.toList,
        Ascending twoResources.toList .resource group.2 := by
  have hwhole : ∀ chunk ∈ chunkText .standard "a.bal" twoResources, chunk.part = none := by
    decide +kernel
  obtain ⟨-, hkinds, -, hresources, -⟩ := chunks_in_order hwhole
  exact ⟨hwhole, hkinds, hresources⟩

end SourceChunks
