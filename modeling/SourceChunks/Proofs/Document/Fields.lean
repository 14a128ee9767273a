import Mathlib
import SourceChunks.Document.Decode
import SourceChunks.Document.Encode
import SourceChunks.Proofs.Document.TimestampText

/-!
# Written fields are read back

The fields of a chunk are a table: a name in two spellings, and a value or nothing.
As long as no two of the names share a spelling, every field of a written table is
found again, whichever spelling it was written in, and one that was left out is not
found.  From this a position, a chunk and a summary are read back as they were.

* `find_written`: what is found under the name of a field of a written table.
* `Position.decode_encode`, `Chunk.decode_encode`, `Summary.decode_encode`.
-/

namespace SourceChunks

/-! ## Tables of fields -/

/-- Fields with the values that are written for them, of which some are left out. -/
abbrev FieldTable := List (FieldName × Option Json)

/-- The members that are written for a table. -/
def FieldTable.written (spelling : Spelling) (table : FieldTable) : List (String × Json) :=
  table.filterMap fun (field, value) => value.map fun value => (field.spelled spelling, value)

/-- Two fields that share no spelling. -/
def FieldName.Apart (f g : FieldName) : Prop :=
  f.camel ≠ g.camel ∧ f.camel ≠ g.snake ∧ f.snake ≠ g.camel ∧ f.snake ≠ g.snake

instance (f g : FieldName) : Decidable (f.Apart g) :=
  inferInstanceAs (Decidable (_ ∧ _ ∧ _ ∧ _))

theorem FieldName.Apart.spelled_ne {f g : FieldName} (h : f.Apart g) (s : Spelling) :
    f.spelled s ≠ g.camel ∧ f.spelled s ≠ g.snake := by
  cases s with
  | camel => exact ⟨h.1, h.2.1⟩
  | snake => exact ⟨h.2.2.1, h.2.2.2⟩

theorem Json.lookup_cons_of_ne {name other : String} (value : Json) (members : List (String × Json))
    (h : other ≠ name) : Json.lookup name ((other, value) :: members) = Json.lookup name members := by
  simp [Json.lookup, h]

@[simp] theorem Json.lookup_cons_self (name : String) (value : Json) (members : List (String × Json)) :
    Json.lookup name ((name, value) :: members) = some value := by
  simp [Json.lookup]

/-- A member with another name does not matter to a field. -/
theorem FieldName.find_cons_of_ne {field : FieldName} {name : String} (value : Json)
    (members : List (String × Json)) (h : name ≠ field.camel ∧ name ≠ field.snake) :
    field.find? ((name, value) :: members) = field.find? members := by
  rw [FieldName.find?, FieldName.find?, Json.lookup_cons_of_ne value members h.1,
    Json.lookup_cons_of_ne value members h.2]

/-- A field that is apart from all those of a table is not found in it. -/
theorem find_written_of_apart (s : Spelling) {field : FieldName} {table : FieldTable}
    (h : ∀ entry ∈ table, entry.1.Apart field) : field.find? (table.written s) = none := by
  induction table with
  | nil => rfl
  | cons entry table ih =>
      obtain ⟨other, value⟩ := entry
      have hother : other.Apart field := h (other, value) List.mem_cons_self
      have hrest := ih fun entry hentry => h entry (List.mem_cons_of_mem _ hentry)
      cases value with
      | none => exact hrest
      | some value =>
          have hwritten : FieldTable.written s ((other, some value) :: table) =
              (other.spelled s, value) :: FieldTable.written s table := rfl
          rw [hwritten, FieldName.find_cons_of_ne value _ (hother.spelled_ne s)]
          exact hrest

/-- What is found under the name of a field of a written table: its value with the name
under which it was written, or nothing if it was left out. -/
theorem find_written (s : Spelling) {table : FieldTable}
    (hapart : (table.map (·.1)).Pairwise FieldName.Apart) (field : FieldName) (value : Option Json)
    (hmem : (field, value) ∈ table) :
    field.find? (table.written s) = value.map fun value => (field.spelled s, value) := by
  -- No other name of the table is a spelling of the field, so all others are passed over.
  induction table with
  | nil => simp at hmem
  | cons entry table ih =>
      obtain ⟨other, first⟩ := entry
      rw [List.map_cons, List.pairwise_cons] at hapart
      obtain ⟨hhead, htail⟩ := hapart
      rcases List.mem_cons.mp hmem with heq | htable
      · obtain ⟨rfl, rfl⟩ := Prod.mk.inj heq
        have hnone : field.find? (FieldTable.written s table) = none := by
          refine find_written_of_apart s fun entry hentry => ?_
          have := hhead entry.1 (List.mem_map_of_mem hentry)
          exact ⟨this.1.symm, this.2.2.1.symm, this.2.1.symm, this.2.2.2.symm⟩
        cases value with
        | none => exact hnone
        | some value =>
            have hwritten : FieldTable.written s ((field, some value) :: table) =
                (field.spelled s, value) :: FieldTable.written s table := rfl
            rw [hwritten]
            cases s with
            | camel => simp [FieldName.find?, FieldName.spelled, Json.lookup_cons_self]
            | snake =>
                by_cases hsame : field.snake = field.camel
                · simp [FieldName.find?, FieldName.spelled, hsame, Json.lookup_cons_self]
                · have hcamel : Json.lookup field.camel (FieldTable.written .snake table) = none := by
                    unfold FieldName.find? at hnone
                    split at hnone
                    · simp at hnone
                    · assumption
                  simp [FieldName.find?, FieldName.spelled, Json.lookup_cons_of_ne _ _ hsame, hcamel,
                    Json.lookup_cons_self]
      · have hne : other.Apart field := hhead field (List.mem_map_of_mem (f := (·.1)) htable)
        cases first with
        | none => exact ih htail htable
        | some first =>
            have hwritten : FieldTable.written s ((other, some first) :: table) =
                (other.spelled s, first) :: FieldTable.written s table := rfl
            rw [hwritten, FieldName.find_cons_of_ne first _ (hne.spelled_ne s)]
            exact ih htail htable

/-- A field that must be there is read back. -/
theorem Check.required_written (s : Spelling) {table : FieldTable}
    (hapart : (table.map (·.1)).Pairwise FieldName.Apart) (field : FieldName) (json : Json)
    (hmem : (field, some json) ∈ table) {α : Type} {check : Json → Checked α} {x : α}
    (hcheck : check json = .valid x) :
    Check.required (table.written s) field check = .valid x := by
  rw [Check.required, find_written s hapart field (some json) hmem]
  simp only [Option.map_some, hcheck, Checked.under]

/-- A field that may be absent is read back, whether it was written or left out. -/
theorem Check.optional_written (s : Spelling) {table : FieldTable}
    (hapart : (table.map (·.1)).Pairwise FieldName.Apart) (field : FieldName) {α : Type}
    (encode : α → Json) (x : Option α) (hmem : (field, x.map encode) ∈ table)
    {check : Json → Checked α} (hcheck : ∀ x, Check.nullable check (encode x) = .valid (some x)) :
    Check.optional (table.written s) field check = .valid x := by
  rw [Check.optional, find_written s hapart field (x.map encode) hmem]
  cases x with
  | none => rfl
  | some x => simp only [Option.map_some, hcheck, Checked.under]

/-! ## Leaves -/

@[simp] theorem Check.nullable_str (s : String) :
    Check.nullable Check.string (.str s) = .valid (some s) :=
  rfl

@[simp] theorem Check.nullable_int (n : Int) :
    Check.nullable Check.integer (.int n) = .valid (some n) :=
  rfl

@[simp] theorem Check.nullable_jsonOf (s : Option String) :
    Check.nullable Check.string (jsonOf .str s) = .valid s := by
  cases s <;> rfl

@[simp] theorem Check.kind_name (k : Kind) : Check.kind (.str k.name) = .valid k := by
  rw [Check.kind, Kind.ofName_name]

@[simp] theorem Check.nullable_role (r : Role) :
    Check.nullable Check.role (.str r.name) = .valid (some r) := by
  show (Check.role (.str r.name)).map some = .valid (some r)
  rw [Check.role, Role.ofName_name]
  rfl

@[simp] theorem Check.itemsFrom_str (index : Nat) (items : List String) :
    Checked.itemsFrom Check.string index (items.map .str) = .valid items := by
  induction items generalizing index with
  | nil => rfl
  | cons item items ih =>
      rw [List.map_cons, Checked.itemsFrom, ih]
      rfl

@[simp] theorem Check.nullable_strings (items : List String) :
    Check.nullable (Check.list Check.string) (.arr (items.map .str)) = .valid (some items) := by
  show (Checked.itemsFrom Check.string 0 (items.map .str)).map some = .valid (some items)
  rw [Check.itemsFrom_str]
  rfl

/-! ## Positions, chunks and summaries -/

/-- The fields of a position. -/
def Position.table (p : Position) : FieldTable :=
  [(Field.startLine, some (.int p.startLine)), (Field.endLine, some (.int p.endLine)),
    (Field.startColumn, some (.int p.startColumn)), (Field.endColumn, some (.int p.endColumn))]

/-- The fields of a chunk. -/
def Chunk.table (s : Spelling) (c : Chunk) : FieldTable :=
  (c.coreFields s).map (fun (field, value) => (field, some value)) ++ c.extraFields

theorem Position.encode_eq (s : Spelling) (p : Position) :
    p.encode s = .obj (p.table.written s) := rfl

theorem Chunk.encode_eq (s : Spelling) (c : Chunk) : c.encode s = .obj ((c.table s).written s) := by
  rw [Chunk.encode, FieldTable.written, Chunk.table, List.filterMap_append, List.filterMap_map]
  rfl

theorem Position.table_apart (p : Position) : (p.table.map (·.1)).Pairwise FieldName.Apart := by
  show [Field.startLine, Field.endLine, Field.startColumn, Field.endColumn].Pairwise _
  decide

theorem Chunk.table_apart (s : Spelling) (c : Chunk) :
    ((c.table s).map (·.1)).Pairwise FieldName.Apart := by
  show [Field.kind, Field.name, Field.content, Field.position, Field.file, Field.id,
    Field.contentHash, Field.visibility, Field.variableType, Field.parameters, Field.returnType,
    Field.role, Field.path, Field.listener, Field.httpMethod, Field.resourcePath, Field.fullPath,
    Field.servicePath, Field.serviceListener, Field.part, Field.partCount].Pairwise _
  decide

/-- A position is read back. -/
@[simp] theorem Position.decode_encode (s : Spelling) (p : Position) :
    Position.decode (p.encode s) = .valid p := by
  have hread : ∀ (field : FieldName) (n : Int), (field, some (Json.int n)) ∈ p.table →
      Check.required (p.table.written s) field Check.integer = .valid n :=
    fun field n hmem => Check.required_written s p.table_apart field (.int n) hmem rfl
  rw [Position.encode_eq, Position.decode, Check.object]
  rw [hread Field.startLine p.startLine (by simp [Position.table]),
    hread Field.endLine p.endLine (by simp [Position.table]),
    hread Field.startColumn p.startColumn (by simp [Position.table]),
    hread Field.endColumn p.endColumn (by simp [Position.table])]
  rfl

/-- A chunk is read back, whichever spelling its fields were written in. -/
@[simp] theorem Chunk.decode_encode (s : Spelling) (c : Chunk) :
    Chunk.decode (c.encode s) = .valid c := by
  have hrequired : ∀ (field : FieldName) (json : Json), (field, some json) ∈ c.table s →
      ∀ {α : Type} {check : Json → Checked α} {x : α}, check json = .valid x →
        Check.required ((c.table s).written s) field check = .valid x :=
    fun field json hmem => Check.required_written s (c.table_apart s) field json hmem
  have htext : ∀ (field : FieldName) (x : String), (field, some (Json.str x)) ∈ c.table s →
      Check.required ((c.table s).written s) field Check.string = .valid x :=
    fun field x hmem => Check.required_written s (c.table_apart s) field (.str x) hmem rfl
  have hstring : ∀ (field : FieldName) (x : Option String), (field, x.map Json.str) ∈ c.table s →
      Check.optional ((c.table s).written s) field Check.string = .valid x :=
    fun field x hmem =>
      Check.optional_written s (c.table_apart s) field .str x hmem Check.nullable_str
  have hinteger : ∀ (field : FieldName) (x : Option Int), (field, x.map Json.int) ∈ c.table s →
      Check.optional ((c.table s).written s) field Check.integer = .valid x :=
    fun field x hmem =>
      Check.optional_written s (c.table_apart s) field .int x hmem Check.nullable_int
  have hparameters : Check.optional ((c.table s).written s) Field.parameters
      (Check.list Check.string) = .valid c.parameters :=
    Check.optional_written s (c.table_apart s) Field.parameters
      (fun items : List String => .arr (items.map .str)) c.parameters
      (by simp [Chunk.table, Chunk.coreFields, Chunk.extraFields]) Check.nullable_strings
  have hrole : Check.optional ((c.table s).written s) Field.role Check.role = .valid c.role :=
    Check.optional_written s (c.table_apart s) Field.role (fun r : Role => .str r.name) c.role
      (by simp [Chunk.table, Chunk.coreFields, Chunk.extraFields]) Check.nullable_role
  -- Every field of the table is found under its name, in the order of the checks.
  rw [Chunk.encode_eq, Chunk.decode, Check.object]
  rw [hrequired Field.kind _ (by simp [Chunk.table, Chunk.coreFields]) (Check.kind_name c.kind),
    hrequired Field.name _ (by simp [Chunk.table, Chunk.coreFields]) (Check.nullable_jsonOf c.name),
    htext Field.content c.content (by simp [Chunk.table, Chunk.coreFields]),
    hrequired Field.position _ (by simp [Chunk.table, Chunk.coreFields])
      (Position.decode_encode s c.position),
    htext Field.file c.file (by simp [Chunk.table, Chunk.coreFields]),
    htext Field.id c.id (by simp [Chunk.table, Chunk.coreFields]),
    htext Field.contentHash c.contentHash (by simp [Chunk.table, Chunk.coreFields]),
    hstring Field.visibility c.visibility (by simp [Chunk.table, Chunk.extraFields]),
    hstring Field.variableType c.variableType (by simp [Chunk.table, Chunk.extraFields]),
    hparameters,
    hstring Field.returnType c.returnType (by simp [Chunk.table, Chunk.extraFields]),
    hrole,
    hstring Field.path c.path (by simp [Chunk.table, Chunk.extraFields]),
    hstring Field.listener c.listener (by simp [Chunk.table, Chunk.extraFields]),
    hstring Field.httpMethod c.httpMethod (by simp [Chunk.table, Chunk.extraFields]),
    hstring Field.resourcePath c.resourcePath (by simp [Chunk.table, Chunk.extraFields]),
    hstring Field.fullPath c.fullPath (by simp [Chunk.table, Chunk.extraFields]),
    hstring Field.servicePath c.servicePath (by simp [Chunk.table, Chunk.extraFields]),
    hstring Field.serviceListener c.serviceListener (by simp [Chunk.table, Chunk.extraFields]),
    hinteger Field.part c.part (by simp [Chunk.table, Chunk.extraFields]),
    hinteger Field.partCount c.partCount (by simp [Chunk.table, Chunk.extraFields])]
  rfl

@[simp] theorem Chunk.itemsFrom_encode (s : Spelling) (index : Nat) (chunks : List Chunk) :
    Checked.itemsFrom Chunk.decode index (chunks.map (·.encode s)) = .valid chunks := by
  induction chunks generalizing index with
  | nil => rfl
  | cons c chunks ih =>
      rw [List.map_cons, Checked.itemsFrom, ih, Chunk.decode_encode]
      rfl

/-- Counts as the members of an object. -/
def countMembers (counts : List (String × Int)) : List (String × Json) :=
  counts.map fun (name, n) => (name, .int n)

@[simp] theorem Check.counts_obj (counts : List (String × Int)) :
    Check.counts (.obj (countMembers counts)) = .valid counts := by
  rw [Check.counts, countMembers]
  induction counts with
  | nil => rfl
  | cons count counts ih =>
      obtain ⟨name, n⟩ := count
      rw [List.map_cons, List.foldr_cons, ih]
      rfl

/-- The fields of a summary. -/
def Summary.table (s : Summary) : FieldTable :=
  [(Field.sourceDirectory, some (jsonOf .str s.sourceDirectory)),
    (Field.generatedAt, some (.str s.generatedAt.text)),
    (Field.totalChunks, some (.int s.totalChunks)),
    (Field.chunkTypeCounts, some (.obj (countMembers s.chunkTypeCounts)))]

theorem Summary.table_apart (s : Summary) : (s.table.map (·.1)).Pairwise FieldName.Apart := by
  show [Field.sourceDirectory, Field.generatedAt, Field.totalChunks,
    Field.chunkTypeCounts].Pairwise _
  decide

/-- A summary is read back if its time is a valid one of the common era. -/
theorem Summary.decode_encode {s : Summary} (htime : s.generatedAt.isValid = true)
    (hera : s.generatedAt.hasEra = true) : Summary.decode s.encode = .valid s := by
  have hdirectory : Check.optional (s.table.written .camel) Field.sourceDirectory Check.string =
      .valid s.sourceDirectory := by
    rw [Check.optional, find_written .camel s.table_apart Field.sourceDirectory
      (some (jsonOf .str s.sourceDirectory)) (by simp [Summary.table])]
    simp only [Option.map_some, Check.nullable_jsonOf, Checked.under]
  have hgenerated : Check.timestamp (.str s.generatedAt.text) = .valid s.generatedAt := by
    rw [Check.timestamp, Timestamp.ofText_text htime, Check.orIssue, if_pos hera]
  have htotal : Check.integer (.int s.totalChunks) = .valid s.totalChunks := rfl
  show Check.object _ (.obj (s.table.written .camel)) = _
  rw [Check.object, hdirectory,
    Check.required_written .camel s.table_apart Field.generatedAt (.str s.generatedAt.text)
      (by simp [Summary.table]) hgenerated,
    Check.required_written .camel s.table_apart Field.totalChunks (.int s.totalChunks)
      (by simp [Summary.table]) htotal,
    Check.required_written .camel s.table_apart Field.chunkTypeCounts _
      (by simp [Summary.table]) (Check.counts_obj s.chunkTypeCounts)]
  rfl

end SourceChunks
