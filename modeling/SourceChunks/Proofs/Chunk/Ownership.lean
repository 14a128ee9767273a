import Mathlib
import SourceChunks.Proofs.Chunk.Listing

/-!
# Resources and their services

A resource stands directly in the body of its service, and its chunks come behind those of the
service, with no other service in between.  So the nearest service before a resource in a
listing is its own: they tell the same name and listener, and the position of the one contains
that of the other.

* `Owns`: what the chunk of a service and that of a resource have in common.
* `LedByService`: in a listing, the nearest service before each resource owns it.
* `LedByService.append`, `LedByService.of_group`: listings that are put together.
* `resources_belong_to_service`: the resources of a text, and their chunks.
-/

namespace SourceChunks

open Locate

/-! ## Listings with owners -/

/-- A service owns a resource: the resource names it, and stands in it. -/
structure Owns (service resource : Chunk) : Prop where
  file : service.file = resource.file
  name : service.name = resource.servicePath
  listener : service.listener = resource.serviceListener
  contains : service.position.Contains resource.position

/-- Before each resource of a listing there is a service, and the nearest one owns it. -/
def LedByService (chunks : List Chunk) : Prop :=
  ∀ before r after, chunks = before ++ r :: after → r.kind = .resource →
    ∃ front s between, before = front ++ s :: between ∧ s.kind = .service ∧
      (∀ chunk ∈ between, chunk.kind ≠ .service) ∧ Owns s r

/-- A member of two lists stands in the first one, or in the second one behind all of the
first. -/
theorem split_of_append {xs ys before after : List Chunk} {r : Chunk}
    (h : xs ++ ys = before ++ r :: after) :
    (∃ more, xs = before ++ r :: more) ∨ ∃ more, before = xs ++ more ∧ ys = more ++ r :: after := by
  rcases List.append_eq_append_iff.mp h with ⟨more, hbefore, hys⟩ | ⟨more, hxs, hrest⟩
  · exact .inr ⟨more, hbefore, hys⟩
  · cases more with
    | nil =>
        rw [List.append_nil] at hxs
        exact .inr ⟨[], by simp [hxs], hrest.symm⟩
    | cons c more =>
        obtain ⟨rfl, -⟩ := List.cons.inj hrest
        exact .inl ⟨more, hxs⟩

namespace LedByService

variable {xs ys : List Chunk}

theorem of_no_resource (h : ∀ chunk ∈ xs, chunk.kind ≠ .resource) : LedByService xs := by
  rintro before r after rfl hr
  exact absurd hr (h r (by simp))

/-- What stands before a resource in its own listing stands before it in a longer one. -/
theorem append (hxs : LedByService xs) (hys : LedByService ys) : LedByService (xs ++ ys) := by
  intro before r after heq hr
  rcases split_of_append heq with ⟨more, hleft⟩ | ⟨more, rfl, hright⟩
  · exact hxs before r more hleft hr
  · obtain ⟨front, s, between, rfl, howner⟩ := hys more r after hright hr
    exact ⟨xs ++ front, s, between, by rw [List.append_assoc], howner⟩

theorem flatMap {α : Type} {items : List α} {listing : α → List Chunk}
    (h : ∀ item ∈ items, LedByService (listing item)) : LedByService (items.flatMap listing) := by
  induction items with
  | nil =>
      apply of_no_resource
      simp
  | cons item items ih =>
      obtain ⟨hitem, hitems⟩ := List.forall_mem_cons.mp h
      rw [List.flatMap_cons]
      exact hitem.append (ih hitems)

/-- Resources that come directly behind the chunks of a service that owns all of them. -/
theorem of_group {services resources : List Chunk} (hne : services ≠ [])
    (hservices : ∀ s ∈ services, s.kind = .service)
    (hresources : ∀ r ∈ resources, r.kind = .resource)
    (howns : ∀ s ∈ services, ∀ r ∈ resources, Owns s r) : LedByService (services ++ resources) := by
  intro before r after heq hr
  rcases split_of_append heq with ⟨more, hleft⟩ | ⟨between, rfl, hright⟩
  · have hservice := hservices r (by simp [hleft])
    rw [hservice] at hr
    contradiction
  · -- The nearest service is the last chunk of the service.
    have hlast := List.dropLast_concat_getLast hne
    have hmem := List.getLast_mem hne
    refine ⟨services.dropLast, services.getLast hne, between, ?_, hservices _ hmem, ?_, ?_⟩
    · rw [← List.singleton_append, ← List.append_assoc, hlast]
    · intro chunk hchunk
      rw [hresources chunk (by simp [hright, hchunk])]
      decide
    · exact howns _ hmem r (by simp [hright])

end LedByService

/-! ## Chunks of services and resources -/

section

variable {file : String} {text : List Char} {index : LineIndex} {limit : Limit} {span : Span}
  {chunk piece : Chunk}

theorem listener_of_mem_boundedChunks {header : Service String}
    (h : piece ∈ boundedChunks limit file text ⟨span, .service header⟩) :
    piece.name = some header.name ∧ piece.listener = header.listener := by
  refine ⟨(describes_of_mem_boundedChunks h).name, ?_⟩
  obtain ⟨chunk, hchunk, hpiece⟩ := List.mem_flatMap.mp h
  have hfrom := isPieceOf_of_mem_bound (describes_of_mem_chunksOf hchunk).hash hpiece
  rw [chunksOf_eq] at hchunk
  rw [List.mem_singleton.mp hchunk] at hfrom
  rw [hfrom]

theorem owner_of_mem_boundedChunks {owner : Service String} {method path : String}
    {callable : Callable String}
    (h : piece ∈ boundedChunks limit file text ⟨span, .resource owner method path callable⟩) :
    piece.servicePath = some owner.name ∧ piece.serviceListener = owner.listener := by
  obtain ⟨chunk, hchunk, hpiece⟩ := List.mem_flatMap.mp h
  have hfrom := isPieceOf_of_mem_bound (describes_of_mem_chunksOf hchunk).hash hpiece
  rw [chunksOf_eq] at hchunk
  rw [hfrom]
  rcases List.mem_pair.mp hchunk with rfl | rfl
  · exact ⟨rfl, rfl⟩
  · exact ⟨rfl, rfl⟩

theorem boundedChunks_ne_nil (d : Declaration String) : boundedChunks limit file text d ≠ [] := by
  intro hnil
  have hchunks : chunksOf file text (LineIndex.ofText text) d = [] := by
    rw [List.eq_nil_iff_forall_not_mem]
    intro chunk hchunk
    exact (boundedAt_bound limit chunk).ne_nil (List.flatMap_eq_nil_iff.mp hnil chunk hchunk)
  have hgroup := isGroup_chunksOf file text (LineIndex.ofText text) d
  unfold IsGroup at hgroup
  rw [hchunks] at hgroup
  split_ifs at hgroup
  · obtain ⟨signature, content, -, hpair⟩ := hgroup
    contradiction
  · obtain ⟨chunk, -, hsingle⟩ := hgroup
    contradiction

end

/-! ## Services of a text -/

section

variable {file : String} {text : List Char} {limit : Limit}
  {group : Declaration String × List (Declaration String)}

/-- The resources of a service lie in the service, so their positions do. -/
theorem contains_of_mem_serviceGroups (hgroup : group ∈ serviceGroups text)
    {r : Declaration String} (hr : r ∈ group.2) :
    (positionOf (LineIndex.ofText text) group.1.span).Contains
      (positionOf (LineIndex.ofText text) r.span) := by
  have hservice := (mem_found_of_mem_serviceGroups hgroup).1
  obtain ⟨opening, hopening, hlt, -⟩ := hasBody_of_mem_found (by decide) hservice
  obtain ⟨body, hbody, hresources⟩ := directlyIn_of_mem_serviceGroups hgroup
  rw [Declaration.body?, hopening] at hbody
  obtain rfl := Option.some.inj hbody
  obtain ⟨⟨hstart, hstop, -⟩, -⟩ := hresources r hr
  simp only at hstart hstop
  apply contains_positionOf
  · exact (serviceGroups_inOrder hgroup).nonempty r hr
  · omega
  · omega
  · exact stop_le_of_mem_found hservice

/-- The chunks of a service own those of its resources. -/
theorem owns_of_mem_serviceGroups (hgroup : group ∈ serviceGroups text) {r : Declaration String}
    (hr : r ∈ group.2) {s' r' : Chunk} (hs' : s' ∈ boundedChunks limit file text group.1)
    (hr' : r' ∈ boundedChunks limit file text r) : Owns s' r' := by
  have hservice := describes_of_mem_boundedChunks hs'
  have hresource := describes_of_mem_boundedChunks hr'
  have hcontains := contains_of_mem_serviceGroups hgroup hr
  rw [← hservice.position, ← hresource.position] at hcontains
  -- Both tell the name and the listener of one header.
  obtain ⟨service, -, rfl⟩ := List.mem_map.mp hgroup
  obtain ⟨search, hsearch, rfl⟩ := List.mem_map.mp hr
  obtain ⟨header, method, path, callable, hshape, hshape'⟩ := shape_of_mem_resourcesOf hsearch
  simp only [Declaration.read, hshape, hshape', Shape.read] at hs' hr'
  obtain ⟨hname, hlistener⟩ := listener_of_mem_boundedChunks hs'
  obtain ⟨howner, hattached⟩ := owner_of_mem_boundedChunks hr'
  exact ⟨hservice.file.trans hresource.file.symm, hname.trans howner.symm,
    hlistener.trans hattached.symm, hcontains⟩

theorem ledByService_of_found {kind : Kind} (hkind : kind ≠ .resource) :
    LedByService ((found text kind).flatMap (boundedChunks limit file text)) := by
  apply LedByService.of_no_resource
  intro chunk hchunk
  obtain ⟨d, hd, hchunk⟩ := List.mem_flatMap.mp hchunk
  rwa [(describes_of_mem_boundedChunks hchunk).kind, kind_of_mem_found hd]

theorem ledByService_of_mem_serviceGroups (hgroup : group ∈ serviceGroups text) :
    LedByService ((group.1 :: group.2).flatMap (boundedChunks limit file text)) := by
  obtain ⟨hservice, hresources⟩ := mem_found_of_mem_serviceGroups hgroup
  rw [List.flatMap_cons]
  apply LedByService.of_group (boundedChunks_ne_nil group.1)
  · intro s hs
    rw [(describes_of_mem_boundedChunks hs).kind, kind_of_mem_found hservice]
  · intro r hr
    obtain ⟨d, hd, hr⟩ := List.mem_flatMap.mp hr
    rw [(describes_of_mem_boundedChunks hr).kind, kind_of_mem_found (hresources d hd)]
  · intro s hs r hr
    obtain ⟨d, hd, hr⟩ := List.mem_flatMap.mp hr
    exact owns_of_mem_serviceGroups hgroup hd hs hr

end

/-- In a listing, the nearest service before each resource owns it. -/
theorem ledByService_chunkText (limit : Limit) (file text : String) :
    LedByService (chunkText limit file text) := by
  have hkind : ∀ kind ≠ .resource, LedByService
      ((found text.toList kind).flatMap (boundedChunks limit file text.toList)) :=
    fun kind hkind => ledByService_of_found hkind
  have hgroups : LedByService (((serviceGroups text.toList).flatMap
      fun group => group.1 :: group.2).flatMap (boundedChunks limit file text.toList)) := by
    rw [List.flatMap_assoc]
    exact .flatMap fun group hgroup => ledByService_of_mem_serviceGroups hgroup
  rw [chunkText_eq_flatMap, declarationsOf_eq]
  simp only [List.flatMap_append]
  -- Run by run, in the order of the listing.
  refine .append (.append (.append (.append (.append (.append (.append ?_ ?_) ?_) ?_) ?_) ?_) ?_) ?_
  · exact hkind .importClause (by decide)
  · exact hkind .configurable (by decide)
  · exact hkind .moduleVariable (by decide)
  · exact hkind .typeDefinition (by decide)
  · exact hkind .function (by decide)
  · exact hgroups
  · exact hkind .classDefinition (by decide)
  · exact hkind .constant (by decide)

/-- Resources belong to their services.  In a text, the whole of a resource, from its header
over the brace that opens its body to its end, lies in the body of its service, and what stands
before it in that body is balanced, so that it is in no block of the body.  In a listing, the
nearest service before each resource owns it: both are of one file, the resource tells the name
and the listener of the service, and its position lies in that of the service. -/
theorem resources_belong_to_service (text : String) :
    (∀ group ∈ serviceGroups text.toList, ∃ body, group.1.body? = some body ∧
      ∀ r ∈ group.2, ∃ opening, r.headerEnd? = some opening ∧
        body.start ≤ r.span.start ∧ r.span.start < opening ∧ opening < r.span.stop ∧
        r.span.stop ≤ body.stop ∧
        Balanced '{' '}' (Span.slice ⟨body.start, r.span.start⟩ (mask text.toList))) ∧
    ∀ limit file, LedByService (chunkText limit file text) := by
  refine ⟨fun group hgroup => ?_, fun limit file => ledByService_chunkText limit file text⟩
  obtain ⟨body, hbody, hresources⟩ := directlyIn_of_mem_serviceGroups hgroup
  refine ⟨body, hbody, fun r hr => ?_⟩
  obtain ⟨⟨hstart, hstop, hbalanced⟩, opening, hopening, hlt, hencloses⟩ := hresources r hr
  have hbounds := hencloses.bounds.1
  exact ⟨opening, hopening, hstart, hlt, by omega, hstop, hbalanced⟩

end SourceChunks
