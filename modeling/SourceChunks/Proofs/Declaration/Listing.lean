import Mathlib
import SourceChunks.Chunk.Stream
import SourceChunks.Proofs.Declaration.Spans
import SourceChunks.Proofs.Source.Interior

/-!
# The declarations of a text in their order

The declarations of a text are listed kind after kind, and each service is followed by its
resources.  Within a kind, and among the resources of one service, they are in the order of the
text; none of them is empty, and all lie within the text.

* `serviceGroups`: each service of a text with its resources.
* `declarationsOf_eq`: a listing is put together from its kinds.
* `found_inOrder`, `serviceGroups_inOrder`: the order within a kind and within a service.
* `start_lt_stop_of_mem_found`, `stop_le_of_mem_found`: the declarations of a text lie in it.
* `hasBody_of_mem_found`, `directlyIn_of_mem_serviceGroups`: their bodies, and their services.
-/

namespace SourceChunks

open Locate

/-- The services of a text, each with its resources. -/
def serviceGroups (text : List Char) : List (Declaration String × List (Declaration String)) :=
  (declarations (services (mask text))).map fun service =>
    (service.read text,
      (declarations (resourcesOf (mask text) (.declared service))).map (·.read text))

section

variable {text : List Char}

/-- In a listing, each service stands before its resources. -/
theorem declarations_servicesWithResources (mask : List Char) :
    declarations (servicesWithResources mask) =
      (declarations (services mask)).flatMap fun service =>
        service :: declarations (resourcesOf mask (.declared service)) := by
  unfold servicesWithResources
  rw [declarations_flatMap fun skip => rfl]
  rfl

/-- A search for resources finds those of each service. -/
theorem declarations_ofKind_resource (mask : List Char) :
    declarations (ofKind mask .resource) =
      (declarations (services mask)).flatMap fun service =>
        declarations (resourcesOf mask (.declared service)) := by
  unfold ofKind
  exact declarations_flatMap (fun skip => rfl) (services mask)

theorem declarationsOf_eq (text : List Char) :
    declarationsOf text =
      found text .importClause ++ found text .configurable ++ found text .moduleVariable ++
        found text .typeDefinition ++ found text .function ++
        (serviceGroups text).flatMap (fun group => group.1 :: group.2) ++
        found text .classDefinition ++ found text .constant := by
  simp only [declarationsOf, all, found, declarations_append, List.map_append,
    declarations_ofKind_function, declarations_servicesWithResources, List.map_flatMap,
    serviceGroups, List.flatMap_map]
  rfl

@[simp] theorem services_of_serviceGroups (text : List Char) :
    (serviceGroups text).map Prod.fst = found text .service := by
  rw [serviceGroups, List.map_map]
  rfl

@[simp] theorem resources_of_serviceGroups (text : List Char) :
    (serviceGroups text).flatMap Prod.snd = found text .resource := by
  rw [found, declarations_ofKind_resource, serviceGroups, List.flatMap_map, List.map_flatMap]

theorem mem_found_of_mem_serviceGroups {group : Declaration String × List (Declaration String)}
    (hgroup : group ∈ serviceGroups text) :
    group.1 ∈ found text .service ∧ ∀ r ∈ group.2, r ∈ found text .resource := by
  rw [← services_of_serviceGroups, ← resources_of_serviceGroups]
  exact ⟨List.mem_map_of_mem hgroup, fun r hr => List.mem_flatMap.mpr ⟨group, hgroup, hr⟩⟩

/-- What is listed is found in the search for its kind. -/
theorem exists_found_of_mem_declarationsOf {d : Declaration String}
    (hd : d ∈ declarationsOf text) : ∃ kind, d ∈ found text kind := by
  rw [declarationsOf_eq] at hd
  simp only [List.mem_append, List.mem_flatMap, List.mem_cons] at hd
  rcases hd with (((((((hd | hd) | hd) | hd) | hd) | ⟨group, hgroup, hd⟩) | hd) | hd)
  · exact ⟨_, hd⟩
  · exact ⟨_, hd⟩
  · exact ⟨_, hd⟩
  · exact ⟨_, hd⟩
  · exact ⟨_, hd⟩
  · obtain ⟨hservice, hresources⟩ := mem_found_of_mem_serviceGroups hgroup
    rcases hd with rfl | hd
    · exact ⟨_, hservice⟩
    · exact ⟨_, hresources d hd⟩
  · exact ⟨_, hd⟩
  · exact ⟨_, hd⟩

/-! ## Kinds -/

/-- A resource tells of the service that it was found in. -/
theorem shape_of_mem_resourcesOf {mask : List Char} {service r : Declaration Span}
    (hr : r ∈ declarations (resourcesOf mask (.declared service))) :
    ∃ header method path callable, service.shape = .service header ∧
      r.shape = .resource header method path callable := by
  obtain ⟨span, shape⟩ := service
  cases shape with
  | service header =>
      obtain ⟨m, -, -, parts, -, -, rfl⟩ := mem_resources.mp hr
      exact ⟨header, _, _, _, rfl, rfl⟩
  | _ => contradiction

/-- A search for a kind finds declarations of that kind. -/
theorem kind_of_mem_ofKind {mask : List Char} {kind : Kind} {d : Declaration Span}
    (hd : d ∈ declarations (ofKind mask kind)) : d.kind = kind := by
  cases kind with
  | service =>
      obtain ⟨m, -, opening, stop, -, -, rfl⟩ := mem_services hd
      rfl
  | resource =>
      rw [declarations_ofKind_resource] at hd
      obtain ⟨service, -, hresource⟩ := List.mem_flatMap.mp hd
      obtain ⟨header, method, path, callable, -, hshape⟩ := shape_of_mem_resourcesOf hresource
      rw [Declaration.kind, hshape]
      rfl
  | _ =>
      have hgroup := (finds_ofKind _ mask d hd).1
      revert hgroup
      cases d.kind <;> decide

theorem kind_of_mem_found {kind : Kind} {d : Declaration String} (hd : d ∈ found text kind) :
    d.kind = kind := by
  obtain ⟨search, hsearch, rfl⟩ := List.mem_map.mp hd
  rw [Declaration.read_kind]
  exact kind_of_mem_ofKind hsearch

/-! ## Order -/

theorem ofKind_inOrder {kind : Kind} (hkind : kind ≠ .resource) (mask : List Char) :
    InOrder (declarations (ofKind mask kind)) := by
  cases kind with
  | importClause => exact imports_inOrder mask
  | configurable => exact configurables_inOrder mask
  | moduleVariable => exact moduleVariables_inOrder mask
  | typeDefinition => exact typeDefinitions_inOrder mask
  | function =>
      rw [declarations_ofKind_function]
      exact functions_inOrder mask
  | service => exact services_inOrder mask
  | resource => contradiction
  | classDefinition => exact classes_inOrder mask
  | constant => exact constants_inOrder mask

/-- Reading declarations does not move them. -/
theorem Locate.InOrder.read {ds : List (Declaration Span)} (h : InOrder ds) (text : List Char) :
    InOrder (ds.map (·.read text)) := by
  constructor
  · exact List.pairwise_map.mpr h.starts
  · intro d hd
    obtain ⟨found, hfound, rfl⟩ := List.mem_map.mp hd
    exact h.nonempty found hfound

/-- The declarations of a kind are in the order of the text. -/
theorem found_inOrder {kind : Kind} (hkind : kind ≠ .resource) (text : List Char) :
    InOrder (found text kind) :=
  (ofKind_inOrder hkind (mask text)).read text

/-- The resources of a service are in the order of the text. -/
theorem serviceGroups_inOrder {group : Declaration String × List (Declaration String)}
    (hgroup : group ∈ serviceGroups text) : InOrder group.2 := by
  obtain ⟨service, hservice, rfl⟩ := List.mem_map.mp hgroup
  exact (resourcesOf_inOrder hservice).read text

/-! ## Places -/

theorem start_lt_stop_of_mem_found {kind : Kind} {d : Declaration String}
    (hd : d ∈ found text kind) : d.span.start < d.span.stop := by
  by_cases hkind : kind = .resource
  · subst hkind
    rw [← resources_of_serviceGroups] at hd
    obtain ⟨group, hgroup, hd⟩ := List.mem_flatMap.mp hd
    exact (serviceGroups_inOrder hgroup).nonempty d hd
  · exact (found_inOrder hkind text).nonempty d hd

theorem stop_le_of_mem_found {kind : Kind} {d : Declaration String} (hd : d ∈ found text kind) :
    d.span.stop ≤ text.length := by
  obtain ⟨found, hfound, rfl⟩ := List.mem_map.mp hd
  have hstop := (finds_ofKind kind _ found hfound).2.stop
  rwa [mask_length] at hstop

theorem Locate.HasBody.read {mask : List Char} {d : Declaration Span} (h : HasBody mask d)
    (text : List Char) : HasBody mask (d.read text) := by
  obtain ⟨opening, hopening, hbody⟩ := h
  exact ⟨opening, by rwa [Declaration.read_headerEnd], hbody⟩

/-- Functions, services and resources have bodies. -/
theorem hasBody_of_mem_found {kind : Kind} (hkind : kind ∈ [Kind.function, .service, .resource])
    {d : Declaration String} (hd : d ∈ found text kind) : HasBody (mask text) d := by
  obtain ⟨search, hsearch, rfl⟩ := List.mem_map.mp hd
  apply HasBody.read
  cases kind with
  | function =>
      rw [declarations_ofKind_function] at hsearch
      exact functions_hasBody hsearch
  | service => exact services_hasBody hsearch
  | resource =>
      rw [declarations_ofKind_resource] at hsearch
      obtain ⟨service, hservice, hresource⟩ := List.mem_flatMap.mp hsearch
      obtain ⟨body, -, hresources⟩ := directlyIn_of_mem_resourcesOf hservice
      exact (hresources search hresource).2
  | _ => simp at hkind

/-- The resources of a service stand directly in its body. -/
theorem directlyIn_of_mem_serviceGroups {group : Declaration String × List (Declaration String)}
    (hgroup : group ∈ serviceGroups text) :
    ∃ body, group.1.body? = some body ∧
      ∀ r ∈ group.2, DirectlyIn (mask text) body r ∧ HasBody (mask text) r := by
  obtain ⟨service, hservice, rfl⟩ := List.mem_map.mp hgroup
  obtain ⟨body, hbody, hresources⟩ := directlyIn_of_mem_resourcesOf hservice
  refine ⟨body, ?_, fun r hr => ?_⟩
  · rwa [Declaration.body?, Declaration.read_headerEnd]
  · obtain ⟨search, hsearch, rfl⟩ := List.mem_map.mp hr
    obtain ⟨hdirectly, hinside⟩ := hresources search hsearch
    exact ⟨⟨hdirectly.start_le, hdirectly.stop_le, hdirectly.balanced⟩, hinside.read text⟩

end

end SourceChunks
