import Mathlib
import SourceChunks.Proofs.Document.Fields
import SourceChunks.Proofs.Json.RoundTrip

/-!
# Documents are read back

The text of a document is read back as that document, and so is a bare list of chunks
in either spelling of its fields, exactly if none of the numbers in it has more digits
than the reader of whole numbers takes.

* `Json.Short`: a whole number that is within that limit.
* `Document.Proper`: a document whose time is a valid one and whose kinds are counted
  once each; `Document.ofChunks_proper`: the documents that are made are such.
* `Document.parse_text` and `Document.parse_text_long`: what is written for a proper
  document is read as that document if its numbers are short, and refused otherwise.
* `Document.parse_bareList`: the same for a list of chunks in either spelling.
* `lookup_kindCounts`: the counts of a summary are the numbers of chunks of each kind.
-/

namespace SourceChunks

/-! ## Numbers within the limit -/

/-- A whole number that has no more digits than can be read. -/
def Json.Short (n : Int) : Prop :=
  n.natAbs < 10 ^ Numeral.digitLimit

namespace Json

@[simp] theorem longCount_int_eq_none_iff (n : Int) : longCount? (.int n) = none ↔ Short n := by
  have hlength : (Nat.toDigits 10 n.natAbs).length ≤ Numeral.digitLimit ↔
      n.natAbs < 10 ^ Numeral.digitLimit :=
    Nat.length_toDigits_le_iff (by decide) (by decide)
  rw [longCount?, Short, ← hlength]
  split_ifs with h
  · simpa using h
  · simpa using h

theorem longItem_eq_none_iff (items : List Json) :
    longItem? items = none ↔ ∀ item ∈ items, longCount? item = none := by
  induction items with
  | nil => simp [longItem?]
  | cons item items ih => simp [longItem?, Option.or_eq_none_iff, ih]

theorem longMember_eq_none_iff (members : List (String × Json)) :
    longMember? members = none ↔ ∀ member ∈ members, longCount? member.2 = none := by
  induction members with
  | nil => simp [longMember?]
  | cons member members ih =>
      obtain ⟨name, value⟩ := member
      simp [longMember?, Option.or_eq_none_iff, ih]

theorem regularItems_iff (room : Nat) (items : List Json) :
    RegularItems room items ↔ ∀ item ∈ items, Regular room item := by
  induction items with
  | nil => simp [RegularItems]
  | cons item items ih => simp [RegularItems, ih]

theorem regularMembers_iff (room : Nat) (members : List (String × Json)) :
    RegularMembers room members ↔ ∀ member ∈ members, Regular room member.2 := by
  induction members with
  | nil => simp [RegularMembers]
  | cons member members ih =>
      obtain ⟨name, value⟩ := member
      simp [RegularMembers, ih]

end Json

/-! ## Written tables -/

theorem FieldTable.forall_written_iff (s : Spelling) (table : FieldTable) (P : Json → Prop) :
    (∀ member ∈ table.written s, P member.2) ↔ ∀ entry ∈ table, ∀ json ∈ entry.2, P json := by
  constructor
  · rintro h ⟨field, value⟩ hmem json hjson
    obtain rfl : value = some json := hjson
    exact h (field.spelled s, json) (List.mem_filterMap.mpr ⟨_, hmem, rfl⟩)
  · intro h member hmember
    obtain ⟨⟨field, value⟩, hmem, hwritten⟩ := List.mem_filterMap.mp hmember
    obtain ⟨json, rfl, rfl⟩ := Option.map_eq_some_iff.mp hwritten
    exact h (field, some json) hmem json rfl

/-- The names in a written table are distinct. -/
theorem FieldTable.nodup_written (s : Spelling) {table : FieldTable}
    (hapart : (table.map (·.1)).Pairwise FieldName.Apart) :
    ((table.written s).map (·.1)).Nodup := by
  have hnames : (table.written s).map (·.1) =
      (table.filter (·.2.isSome)).map fun entry => entry.1.spelled s := by
    induction table with
    | nil => rfl
    | cons entry table ih =>
        obtain ⟨field, value⟩ := entry
        have hrest := ih (List.pairwise_cons.mp hapart).2
        cases value with
        | none => simpa [FieldTable.written] using hrest
        | some value => simpa [FieldTable.written] using hrest
  rw [hnames, List.Nodup, List.pairwise_map]
  rw [List.pairwise_map] at hapart
  refine (hapart.sublist List.filter_sublist).imp fun {a b} hab => ?_
  cases s with
  | camel => exact hab.1
  | snake => exact hab.2.2.2

/-! ## Chunks -/

/-- The whole numbers of a chunk. -/
def Chunk.numbers (c : Chunk) : List Int :=
  [c.position.startLine, c.position.endLine, c.position.startColumn, c.position.endColumn] ++
    c.part.toList ++ c.partCount.toList

theorem Position.encode_regular (s : Spelling) (p : Position) (room : Nat) (hroom : 0 < room) :
    Json.Regular room (p.encode s) := by
  rw [Position.encode_eq]
  refine ⟨hroom, FieldTable.nodup_written s p.table_apart, ?_⟩
  rw [Json.regularMembers_iff, FieldTable.forall_written_iff]
  simp [Position.table, Json.Regular]

theorem Position.longCount_encode (s : Spelling) (p : Position) :
    Json.longCount? (p.encode s) = none ↔
      ∀ n ∈ [p.startLine, p.endLine, p.startColumn, p.endColumn], Json.Short n := by
  rw [Position.encode_eq, Json.longCount?, Json.longMember_eq_none_iff,
    FieldTable.forall_written_iff s p.table (Json.longCount? · = none)]
  simp [Position.table, or_imp, forall_and, Json.longCount_int_eq_none_iff]

theorem Json.regular_strings (room : Nat) (hroom : 0 < room) (items : List String) :
    Json.Regular room (.arr (items.map .str)) := by
  refine ⟨hroom, ?_⟩
  rw [Json.regularItems_iff]
  intro item hitem
  obtain ⟨s, -, rfl⟩ := List.mem_map.mp hitem
  trivial

@[simp] theorem Json.longCount_strings (items : List String) :
    Json.longCount? (.arr (items.map .str)) = none := by
  rw [Json.longCount?, Json.longItem_eq_none_iff]
  intro item hitem
  obtain ⟨s, -, rfl⟩ := List.mem_map.mp hitem
  rfl

theorem Chunk.encode_regular (s : Spelling) (c : Chunk) (room : Nat) (hroom : 1 < room) :
    Json.Regular room (c.encode s) := by
  have hposition := c.position.encode_regular s (room - 1) (by omega)
  have hstrings := fun items => Json.regular_strings (room - 1) (by omega) items
  rw [Chunk.encode_eq]
  refine ⟨by omega, FieldTable.nodup_written s (c.table_apart s), ?_⟩
  rw [Json.regularMembers_iff, FieldTable.forall_written_iff s (c.table s) (Json.Regular (room - 1))]
  have hname : Json.Regular (room - 1) (jsonOf .str c.name) := by
    cases c.name <;> trivial
  have hstr : ∀ x, Json.Regular (room - 1) (.str x) := fun x => trivial
  have hint : ∀ x, Json.Regular (room - 1) (.int x) := fun x => trivial
  simp [Chunk.table, Chunk.coreFields, Chunk.extraFields, hname, hstr, hint, hposition, hstrings]

theorem Chunk.longCount_encode (s : Spelling) (c : Chunk) :
    Json.longCount? (c.encode s) = none ↔ ∀ n ∈ c.numbers, Json.Short n := by
  rw [Chunk.encode_eq, Json.longCount?, Json.longMember_eq_none_iff,
    FieldTable.forall_written_iff s (c.table s) (Json.longCount? · = none)]
  have hname : Json.longCount? (jsonOf .str c.name) = none := by cases c.name <;> rfl
  have hstr : ∀ x, Json.longCount? (.str x) = none := fun x => rfl
  simp [Chunk.table, Chunk.coreFields, Chunk.extraFields, Chunk.numbers, or_imp, forall_and,
    hname, hstr, Position.longCount_encode, Json.longCount_strings, Json.longCount_int_eq_none_iff,
    and_assoc]

/-! ## Documents -/

/-- The whole numbers of a document. -/
def Document.numbers (d : Document) : List Int :=
  d.summary.totalChunks :: d.summary.chunkTypeCounts.map (·.2) ++ d.chunks.flatMap Chunk.numbers

/-- A document as the program makes them: every kind is counted once, and the time is a
valid one of the common era. -/
structure Document.Proper (d : Document) : Prop where
  counts_nodup : (d.summary.chunkTypeCounts.map (·.1)).Nodup
  time_valid : d.summary.generatedAt.isValid = true
  time_hasEra : d.summary.generatedAt.hasEra = true

/-- The fields of a document. -/
def Document.table (d : Document) : FieldTable :=
  [(Field.metadata, some d.summary.encode),
    (Field.chunks, some (.arr (d.chunks.map (·.encode .camel))))]

theorem Document.table_apart (d : Document) : (d.table.map (·.1)).Pairwise FieldName.Apart := by
  show [Field.metadata, Field.chunks].Pairwise _
  decide

theorem Json.regular_chunks (s : Spelling) (chunks : List Chunk) (room : Nat) (hroom : 2 < room) :
    Json.Regular room (.arr (chunks.map (·.encode s))) := by
  refine ⟨by omega, ?_⟩
  rw [Json.regularItems_iff]
  intro item hitem
  obtain ⟨c, -, rfl⟩ := List.mem_map.mp hitem
  exact c.encode_regular s (room - 1) (by omega)

theorem Json.longCount_chunks (s : Spelling) (chunks : List Chunk) :
    Json.longCount? (.arr (chunks.map (·.encode s))) = none ↔
      ∀ n ∈ chunks.flatMap Chunk.numbers, Json.Short n := by
  rw [Json.longCount?, Json.longItem_eq_none_iff]
  simp only [List.forall_mem_map, Chunk.longCount_encode, List.mem_flatMap]
  constructor
  · rintro h n ⟨c, hc, hn⟩
    exact h c hc n hn
  · intro h c hc n hn
    exact h n ⟨c, hc, hn⟩

theorem Summary.encode_regular {s : Summary} (hcounts : (s.chunkTypeCounts.map (·.1)).Nodup)
    (room : Nat) (hroom : 1 < room) : Json.Regular room s.encode := by
  have hdirectory : Json.Regular (room - 1) (jsonOf .str s.sourceDirectory) := by
    cases s.sourceDirectory <;> trivial
  have hobject : Json.Regular (room - 1) (.obj (countMembers s.chunkTypeCounts)) := by
    refine ⟨by omega, by simpa [countMembers, Function.comp_def] using hcounts, ?_⟩
    rw [Json.regularMembers_iff]
    intro member hmember
    obtain ⟨count, -, rfl⟩ := List.mem_map.mp hmember
    trivial
  show Json.Regular room (.obj (s.table.written .camel))
  refine ⟨by omega, FieldTable.nodup_written .camel s.table_apart, ?_⟩
  rw [Json.regularMembers_iff, FieldTable.forall_written_iff .camel s.table (Json.Regular (room - 1))]
  have hstr : ∀ x, Json.Regular (room - 1) (.str x) := fun x => trivial
  have hint : ∀ x, Json.Regular (room - 1) (.int x) := fun x => trivial
  simp [Summary.table, hdirectory, hobject, hstr, hint]

theorem Summary.longCount_encode (s : Summary) :
    Json.longCount? s.encode = none ↔
      ∀ n ∈ s.totalChunks :: s.chunkTypeCounts.map (·.2), Json.Short n := by
  have hdirectory : Json.longCount? (jsonOf .str s.sourceDirectory) = none := by
    cases s.sourceDirectory <;> rfl
  have hstr : ∀ x, Json.longCount? (.str x) = none := fun x => rfl
  have hobject : Json.longCount? (.obj (countMembers s.chunkTypeCounts)) = none ↔
      ∀ n ∈ s.chunkTypeCounts.map (·.2), Json.Short n := by
    rw [Json.longCount?, Json.longMember_eq_none_iff, countMembers, List.forall_mem_map,
      List.forall_mem_map]
    simp only [Json.longCount_int_eq_none_iff]
  show Json.longCount? (.obj (s.table.written .camel)) = none ↔ _
  rw [Json.longCount?, Json.longMember_eq_none_iff,
    FieldTable.forall_written_iff .camel s.table (Json.longCount? · = none)]
  rw [List.forall_mem_cons, ← hobject]
  simp [Summary.table, hdirectory, hstr, Json.longCount_int_eq_none_iff]

theorem Document.encode_regular {d : Document} (hd : d.Proper) :
    Json.Regular Json.depthLimit d.encode := by
  have hsummary := Summary.encode_regular hd.counts_nodup (Json.depthLimit - 1) (by decide)
  have hchunks := Json.regular_chunks .camel d.chunks (Json.depthLimit - 1) (by decide)
  show Json.Regular Json.depthLimit (.obj (d.table.written .camel))
  refine ⟨by decide, FieldTable.nodup_written .camel d.table_apart, ?_⟩
  rw [Json.regularMembers_iff, FieldTable.forall_written_iff .camel d.table
    (Json.Regular (Json.depthLimit - 1))]
  simp [Document.table, hsummary, hchunks]

theorem Document.longCount_encode (d : Document) :
    Json.longCount? d.encode = none ↔ ∀ n ∈ d.numbers, Json.Short n := by
  show Json.longCount? (.obj (d.table.written .camel)) = none ↔ _
  rw [Json.longCount?, Json.longMember_eq_none_iff,
    FieldTable.forall_written_iff .camel d.table (Json.longCount? · = none)]
  rw [Document.numbers, List.forall_mem_append, ← Summary.longCount_encode,
    ← Json.longCount_chunks .camel]
  simp [Document.table]

theorem Document.decode_encode {d : Document} (hd : d.Proper) :
    Document.decode d.encode = .valid d := by
  have hchunks : Check.list Chunk.decode (.arr (d.chunks.map (·.encode .camel))) =
      .valid d.chunks := Chunk.itemsFrom_encode .camel 0 d.chunks
  show Check.object _ (.obj (d.table.written .camel)) = _
  rw [Check.object,
    Check.required_written .camel d.table_apart Field.metadata d.summary.encode
      (by simp [Document.table]) (Summary.decode_encode hd.time_valid hd.time_hasEra),
    Check.required_written .camel d.table_apart Field.chunks _ (by simp [Document.table]) hchunks]
  rfl

/-- The text of a document without numbers that are too long is read as that document. -/
theorem Document.parse_text {d : Document} (hd : d.Proper) (hshort : ∀ n ∈ d.numbers, Json.Short n)
    (now : Timestamp) : Document.parse now d.text = .ok d := by
  have hjson := Json.parse_print .indented (Document.encode_regular hd)
    ((Document.longCount_encode d).mpr hshort)
  have hread : Document.ofJson now d.encode = .valid d := Document.decode_encode hd
  rw [Document.parse, Document.text, hjson]
  simp only [hread]

/-- The text of a document with a number that is too long is refused for that number. -/
theorem Document.parse_text_long {d : Document} (hd : d.Proper)
    (hlong : ∃ n ∈ d.numbers, ¬ Json.Short n) (now : Timestamp) :
    ∃ fault count, Document.parse now d.text = .error (.malformed fault) ∧
      fault.cause = .tooManyDigits count := by
  obtain ⟨count, hcount⟩ : ∃ count, Json.longCount? d.encode = some count := by
    rw [← Option.ne_none_iff_exists', Ne, Document.longCount_encode]
    simpa using hlong
  obtain ⟨fault, hfault, hcause⟩ :=
    Json.parse_print_long .indented (Document.encode_regular hd) hcount
  refine ⟨fault, count, ?_, hcause⟩
  rw [Document.parse, Document.text, hfault]

/-- A text that holds a bare list of chunks is read as a document about them. -/
theorem Document.parse_of_bareList (now : Timestamp) (s : Spelling) {chunks : List Chunk}
    {text : String} (h : Json.parse text.toList = .ok (.arr (chunks.map (·.encode s)))) :
    Document.parse now text = .ok (Document.ofChunks now none chunks) := by
  have hitems : Checked.items Chunk.decode (chunks.map (·.encode s)) = .valid chunks :=
    Chunk.itemsFrom_encode s 0 chunks
  rw [Document.parse, h]
  simp only [Document.ofJson, hitems, Checked.map]

/-- A bare list of chunks is read as a document about them, whichever spelling and layout
it was written in. -/
theorem Document.parse_bareList (now : Timestamp) (layout : Json.Layout) (s : Spelling)
    {chunks : List Chunk} (hshort : ∀ n ∈ chunks.flatMap Chunk.numbers, Json.Short n) :
    Document.parse now (Json.print layout (.arr (chunks.map (·.encode s)))) =
      .ok (Document.ofChunks now none chunks) := by
  have hjson := Json.parse_print layout (Json.regular_chunks s chunks Json.depthLimit (by decide))
    ((Json.longCount_chunks s chunks).mpr hshort)
  exact Document.parse_of_bareList now s hjson

/-! ## Counts -/

@[simp] theorem lookup_countOne (name other : String) (counts : List (String × Nat)) :
    (countOne name counts).lookup other =
      if other = name then some ((counts.lookup name).getD 0 + 1) else counts.lookup other := by
  induction counts with
  | nil =>
      by_cases hother : other = name
      · simp [countOne, hother]
      · have hfalse : (other == name) = false := by simpa using hother
        simp [countOne, hother, List.lookup_cons, hfalse]
  | cons count counts ih =>
      obtain ⟨first, n⟩ := count
      by_cases hfirst : first = name
      · subst hfirst
        by_cases hother : other = first
        · simp [countOne, hother]
        · have hfalse : (other == first) = false := by simpa using hother
          simp [countOne, hother, List.lookup_cons, hfalse]
      · by_cases hother : other = first
        · subst hother
          simp [countOne, hfirst]
        · have hname : (name == first) = false := by simpa using Ne.symm hfirst
          have hfalse : (other == first) = false := by simpa using hother
          simp [countOne, hfirst, List.lookup_cons, hname, hfalse, ih]

theorem nodup_countOne (name : String) {counts : List (String × Nat)}
    (hcounts : (counts.map (·.1)).Nodup) : ((countOne name counts).map (·.1)).Nodup := by
  -- A name that is counted already stays in its place; a new one goes to the end.
  have hnames : (countOne name counts).map (·.1) =
      if name ∈ counts.map (·.1) then counts.map (·.1) else counts.map (·.1) ++ [name] := by
    clear hcounts
    induction counts with
    | nil => rfl
    | cons count counts ih =>
        obtain ⟨first, n⟩ := count
        by_cases hfirst : first = name
        · simp [countOne, hfirst]
        · have hne : name ≠ first := Ne.symm hfirst
          by_cases hmem : name ∈ counts.map (·.1)
          · simp [countOne, hfirst, ih, hmem]
          · simp [countOne, hfirst, ih, hmem, hne]
  rw [hnames]
  split_ifs with hmem
  · exact hcounts
  · refine List.nodup_append.mpr ⟨hcounts, List.nodup_singleton name, ?_⟩
    rintro other hother last hlast rfl
    exact hmem (by rwa [← List.mem_singleton.mp hlast])

@[simp] theorem kindCounts_append (chunks : List Chunk) (c : Chunk) :
    kindCounts (chunks ++ [c]) = countOne c.kind.name (kindCounts chunks) := by
  rw [kindCounts, List.foldl_append]
  rfl

theorem nodup_kindCounts (chunks : List Chunk) : ((kindCounts chunks).map (·.1)).Nodup := by
  induction chunks using List.reverseRecOn with
  | nil => exact List.nodup_nil
  | append_singleton chunks c ih =>
      rw [kindCounts_append]
      exact nodup_countOne c.kind.name ih

@[simp] theorem sum_countOne (name : String) (counts : List (String × Nat)) :
    ((countOne name counts).map (·.2)).sum = (counts.map (·.2)).sum + 1 := by
  induction counts with
  | nil => rfl
  | cons count counts ih =>
      obtain ⟨first, n⟩ := count
      by_cases hfirst : first = name
      · simp only [countOne, hfirst, if_true, List.map_cons, List.sum_cons]
        omega
      · simp only [countOne, hfirst, if_false, List.map_cons, List.sum_cons, ih]
        omega

/-- Every chunk is counted once. -/
@[simp] theorem sum_kindCounts (chunks : List Chunk) :
    ((kindCounts chunks).map (·.2)).sum = chunks.length := by
  induction chunks using List.reverseRecOn with
  | nil => rfl
  | append_singleton chunks c ih =>
      rw [kindCounts_append, sum_countOne, ih, List.length_append, List.length_singleton]

theorem count_le_length {chunks : List Chunk} {name : String} {n : Nat}
    (h : (name, n) ∈ kindCounts chunks) : n ≤ chunks.length := by
  rw [← sum_kindCounts]
  exact List.le_sum_of_mem (List.mem_map_of_mem h)

/-- The count of a kind is the number of its chunks; a kind without chunks has none. -/
@[simp] theorem lookup_kindCounts (chunks : List Chunk) (k : Kind) :
    (kindCounts chunks).lookup k.name =
      if chunks.countP (·.kind = k) = 0 then none else some (chunks.countP (·.kind = k)) := by
  -- From the back, since the chunks are counted in their order.
  induction chunks using List.reverseRecOn with
  | nil => rfl
  | append_singleton chunks c ih =>
      rw [kindCounts_append, lookup_countOne, List.countP_append]
      by_cases hkind : c.kind = k
      · subst hkind
        rw [ih, if_pos rfl]
        by_cases hzero : chunks.countP (·.kind = c.kind) = 0
        · simp [hzero]
        · simp [hzero]
      · have hname : k.name ≠ c.kind.name := fun h => hkind (Kind.name_injective h).symm
        rw [if_neg hname, ih]
        simp [hkind]

/-- Counts as a document holds them. -/
def castCounts (counts : List (String × Nat)) : List (String × Int) :=
  counts.map fun (name, n) => (name, (n : Int))

@[simp] theorem lookup_castCounts (name : String) (counts : List (String × Nat)) :
    (castCounts counts).lookup name = (counts.lookup name).map fun n => (n : Int) := by
  rw [castCounts]
  induction counts with
  | nil => rfl
  | cons count counts ih =>
      obtain ⟨first, n⟩ := count
      rw [List.map_cons, List.lookup_cons, List.lookup_cons, ih]
      by_cases hname : name = first
      · simp [hname]
      · have hfalse : (name == first) = false := by simpa using hname
        simp only [hfalse]

/-- The documents of chunks are proper ones, if their time is. -/
theorem Document.ofChunks_proper {now : Timestamp} (hvalid : now.isValid = true)
    (hera : now.hasEra = true) (directory : Option String) (chunks : List Chunk) :
    (Document.ofChunks now directory chunks).Proper where
  counts_nodup := by
    show ((castCounts (kindCounts chunks)).map (·.1)).Nodup
    simpa [castCounts, Function.comp_def] using nodup_kindCounts chunks
  time_valid := hvalid
  time_hasEra := hera

end SourceChunks
