import Mathlib
import SourceChunks.Chunk.Raw
import SourceChunks.Proofs.Chunk.Groups
import SourceChunks.Proofs.Except
import SourceChunks.Proofs.Text.Rows

/-!
# What is hashed

The texts that are hashed for a declaration are cut out of a text with all its halves, and the
texts of its chunks out of what the text shows.  Each operation on a text shows what it makes of
what is shown, so what is hashed shows what the chunks tell.  If all of it can be encoded, the
digests are those of the chunks; otherwise chunking fails at the first text that cannot be.

* `text_provenance`, `map_text_contents`: what the texts show that are hashed.
* `signed_eq`: the chunks of a declaration, once what is hashed for it can be encoded.
* `allHashed`: what is hashed for all declarations of a text.
* `chunkText_eq`: chunking a text fails exactly where encoding one of these texts after the
  other fails.
* `NoHalves.allHashed`: nothing in a text without halves has one.
* `chunkText_eq_ok_iff`: when chunking a text gives chunks.
-/

namespace SourceChunks

/-! ## Rows that show a text -/

theorem map_stripChars {α : Type} (shown : α → Char) (drop : Char → Bool) (s : List α) :
    (stripChars (fun a => drop (shown a)) s).map shown = stripChars drop (s.map shown) := by
  have hdrop : ∀ s : List α,
      (s.map shown).dropWhile drop = (s.dropWhile fun a => drop (shown a)).map shown :=
    fun s => List.dropWhile_map
  rw [stripChars, stripChars, hdrop, ← List.map_reverse, hdrop, List.map_reverse]

namespace RawText

/-! ## Parts of a text -/

variable (file s : RawText) (span : Span)

@[simp] theorem chars_part : chars (part s span) = span.slice (chars s) := by
  simp only [part, chars, List.extract, List.map_take, List.map_drop]
  rfl

@[simp] theorem text_part : text (part s span) = readPart (chars s) span :=
  congrArg String.ofList (chars_part s span)

theorem text_part_comp : text ∘ part s = readPart (chars s) :=
  funext (text_part s)

@[simp] theorem chars_trim : chars (trim s) = Text.trim (chars s) :=
  map_stripChars CodePoint.shown Text.isBlank s

@[simp] theorem isEmpty_chars : (chars s).isEmpty = s.isEmpty :=
  List.isEmpty_map

@[simp] theorem map_text_trimmed : (trimmed? s span).map text = readTrimmed (chars s) span := by
  simp only [trimmed?, readTrimmed, ← chars_part, ← chars_trim, isEmpty_chars]
  split_ifs
  · rfl
  · rfl

@[simp] theorem chars_intercalate (sep : RawText) (rows : List RawText) :
    chars (List.intercalate sep rows) = List.intercalate (chars sep) (rows.map chars) :=
  intercalate_of_append chars_nil chars_append sep rows

@[simp] theorem text_intercalate (sep : RawText) (rows : List RawText) :
    text (List.intercalate sep rows) = (text sep).intercalate (rows.map text) := by
  apply String.toList_injective
  rw [toList_text, chars_intercalate, String.toList_intercalate, List.map_map, toList_text]
  congr 2
  exact funext fun row => (toList_text row).symm

@[simp] theorem chars_collapse : chars (collapse s) = Text.collapse (chars s) := by
  rw [collapse, chars_intercalate, chars_ofString, Text.collapse]
  exact congrArg (List.intercalate [' ']) (Text.map_wordsBy CodePoint.shown s)

@[simp] theorem text_collapse : text (collapse s) = collapsed (text s) := by
  rw [text, chars_collapse, collapsed, toList_text]

/-! ## Headers on one line -/

@[simp] theorem map_text_splitParameters (raw : RawText) :
    (splitParameters raw).map text = SourceChunks.splitParameters (text raw) := by
  have hpieces : (piecesBy CodePoint.shown raw).map chars = piecesFrom 0 [] (chars raw) :=
    map_piecesBy CodePoint.shown raw
  rw [splitParameters, SourceChunks.splitParameters, toList_text, ← hpieces, List.filter_map,
    List.map_map, List.map_map]
  refine congrArg₂ List.map (funext fun piece => ?_) rfl
  rw [Function.comp_apply, text, chars_collapse]
  rfl

@[simp] theorem map_text_returnsWords (returns : Option RawText) :
    (returnsWords returns).map text = SourceChunks.returnsWords (returns.map text) := by
  cases returns with
  | none => rfl
  | some type =>
      have hempty : (text type).isEmpty = type.isEmpty := by
        rw [← isEmpty_chars, Bool.eq_iff_iff, String.isEmpty_iff, List.isEmpty_iff, ← toList_text,
          String.toList_eq_nil_iff]
      simp only [returnsWords, SourceChunks.returnsWords, Option.map_some, hempty]
      split_ifs
      · rfl
      · simp

@[simp] theorem text_call (keyword : String) (name : RawText) (parameters : List RawText) :
    text (call keyword name parameters) =
      keyword ++ text name ++ "(" ++ ", ".intercalate (parameters.map text) ++ ")" := by
  simp [call, String.append_assoc]

@[simp] theorem text_functionSignature (isPublic : Bool) (qualifiers : List RawText) (name : RawText)
    (parameters : List RawText) (returns : Option RawText) :
    text (functionSignature isPublic qualifiers name parameters returns) =
      SourceChunks.functionSignature isPublic (qualifiers.map text) (text name)
        (parameters.map text) (returns.map text) := by
  have hpublic : (if isPublic then [ofString "public"] else []).map text =
      if isPublic then ["public"] else [] := by
    split_ifs
    · rw [List.map_singleton, text_ofString]
    · rfl
  rw [functionSignature, SourceChunks.functionSignature, text_intercalate, List.map_append,
    List.map_append, List.map_append, List.map_singleton, hpublic, map_text_returnsWords, text_call,
    text_ofString]

@[simp] theorem text_resourceSignature (qualifiers : List RawText) (method path : RawText)
    (parameters : List RawText) (returns : Option RawText) :
    text (resourceSignature qualifiers method path parameters returns) =
      SourceChunks.resourceSignature (qualifiers.map text) (text method) (text path)
        (parameters.map text) (returns.map text) := by
  have hname : text (method ++ ofString " " ++ path) = text method ++ " " ++ text path := by
    simp [String.append_assoc]
  rw [resourceSignature, SourceChunks.resourceSignature, text_intercalate, List.map_append,
    List.map_append, List.map_singleton, map_text_returnsWords, text_call, text_ofString, hname]
  simp only [String.append_assoc]

/-! ## What is hashed for a declaration -/

@[simp] theorem text_serviceName (path : Option RawText) :
    text (serviceName path) = SourceChunks.serviceName (path.map text) := by
  have hgiven : ((path.map text).getD "").toList = chars (path.getD []) := by
    cases path <;> simp
  have hinner : chars (stripChars (·.shown == '/') (stripChars (·.shown == '"') (path.getD []))) =
      stripChars (· == '/') (stripChars (· == '"') (chars (path.getD []))) := by
    have hstrip := fun mark => map_stripChars CodePoint.shown (· == mark)
    exact (hstrip '/' _).trans (congrArg _ (hstrip '"' _))
  unfold serviceName SourceChunks.serviceName
  simp only [hgiven, ← hinner, isEmpty_chars]
  split_ifs
  · exact text_ofString _
  · rfl

/-- The name under which a declaration is hashed. -/
theorem text_name (d : Declaration Span) :
    text (name s d.shape) = ((d.read (chars s)).name?.getD "") := by
  obtain ⟨span, shape⟩ := d
  cases shape with
  | importClause => rfl
  | service header =>
      have hname : (Declaration.read (chars s) ⟨span, .service header⟩).name? =
          some (header.read (chars s)).name := rfl
      have hpath : (header.path.map (part s)).map text = (header.read (chars s)).path := by
        rw [Option.map_map, text_part_comp]
        rfl
      rw [hname, Option.getD_some, Service.name, ← hpath]
      exact text_serviceName _
  | resource owner method path callable =>
      simp only [name, text_append, text_part, text_ofString]
      rfl
  | _ => exact text_part s _

/-- What identifies a declaration is what its identifier is made of. -/
theorem text_provenance (d : Declaration Span) (startLine : Int) :
    text (provenance file d.kind (name s d.shape) startLine) =
      SourceChunks.provenance (text file) d.kind (d.read (chars s)).name? startLine := by
  simp only [provenance, SourceChunks.provenance, text_append, text_ofString, text_name,
    String.append_assoc]

/-- The signature of a header, read from what a text shows. -/
theorem map_text_callable (callable : Callable Span) :
    (callable.qualifiers.map (part s)).map text = (callable.read (chars s)).qualifiers ∧
    (splitParameters (part s callable.parameters)).map text =
      SourceChunks.splitParameters (callable.read (chars s)).parameters ∧
    (callable.returns.bind (trimmed? s)).map text = (callable.read (chars s)).returns := by
  refine ⟨?_, ?_, ?_⟩
  · rw [List.map_map, text_part_comp]
    rfl
  · rw [map_text_splitParameters, text_part]
    rfl
  · rw [Option.map_bind]
    exact congrArg callable.returns.bind (funext (map_text_trimmed s))

/-- The texts of the chunks of a declaration are the texts that are hashed for them. -/
theorem map_text_contents (file : String) (index : LineIndex) (d : Declaration Span) :
    (contents s d).map text =
      (SourceChunks.chunksOf file (chars s) index (d.read (chars s))).map Chunk.content := by
  obtain ⟨span, shape⟩ := d
  have hbody : ∀ body : Option Span, text (trim ((body.map (part s)).getD [])) =
      String.ofList (Text.trim ((body.map (·.slice (chars s))).getD [])) := by
    intro body
    rw [text, chars_trim]
    cases body with
    | none => rfl
    | some span => rw [Option.map_some, Option.getD_some, chars_part]; rfl
  cases shape with
  | function isPublic name callable =>
      obtain ⟨hqualifiers, hparameters, hreturns⟩ := map_text_callable s callable
      refine congrArg₂ (fun signature body => [signature, body]) ?_ (hbody _)
      rw [text_functionSignature, hqualifiers, hparameters, hreturns, text_part]
      rfl
  | resource owner method path callable =>
      obtain ⟨hqualifiers, hparameters, hreturns⟩ := map_text_callable s callable
      refine congrArg₂ (fun signature body => [signature, body]) ?_ (hbody _)
      rw [text_resourceSignature, hqualifiers, hparameters, hreturns, text_part, text_part]
      rfl
  | service header =>
      refine congrArg (fun content => [content]) ?_
      rw [text_collapse, text_part]
      rfl
  | _ => exact congrArg (fun content => [content]) (text_part s span)

/-! ## Digests -/

theorem digest_eq : digest s = (encode s).map fun _ => Sha256.hexDigest (text s) := by
  rw [digest]
  cases hencoded : encode s with
  | error e => rw [map_error, map_error]
  | ok t => rw [map_ok, map_ok, (of_encode_eq_ok hencoded).1]

/-- The digests of a declaration, if all that is hashed for it can be encoded, are those that its
chunks have anyway. -/
theorem signed_eq {startLine : Int} {d : Declaration Span} {chunks : List Chunk}
    (hcontents : (contents s d).map text = chunks.map Chunk.content)
    (hid : ∀ chunk ∈ chunks,
      chunk.id = chunkId (text file) d.kind (d.read (chars s)).name? startLine)
    (hhash : ∀ chunk ∈ chunks, chunk.contentHash = contentHash chunk.content) :
    signed file s startLine d chunks =
      ((hashed file s startLine d).mapM encode).map fun _ => chunks := by
  have hdigests : (contents s d).mapM digest = ((contents s d).mapM encode).map fun _ =>
      chunks.map fun chunk => contentHash chunk.content := by
    have heach : digest = fun p => (encode p).map fun _ => Sha256.hexDigest (text p) :=
      funext digest_eq
    have htexts := congrArg (List.map Sha256.hexDigest) hcontents
    rw [List.map_map, List.map_map] at htexts
    rw [heach, mapM_map_const]
    exact congrArg (fun hashes => ((contents s d).mapM encode).map fun _ => hashes) htexts
  have hstamped : List.zipWith (fun (chunk : Chunk) hash =>
      { chunk with
        id := chunkId (text file) d.kind (d.read (chars s)).name? startLine
        contentHash := hash }) chunks (chunks.map fun chunk => contentHash chunk.content) =
      chunks := by
    rw [List.zipWith_map_right, List.zipWith_self]
    refine List.map_congr_left (fun chunk hchunk => ?_) |>.trans (List.map_id chunks)
    rw [← hid chunk hchunk, ← hhash chunk hchunk]
    rfl
  rw [signed, hashed, digest_eq, text_provenance, hdigests, List.mapM_cons]
  cases encode (provenance file d.kind (name s d.shape) startLine) with
  | error e => rfl
  | ok origin =>
      cases (contents s d).mapM encode with
      | error e => rfl
      | ok texts => exact congrArg Except.ok hstamped

/-! ## Chunks of a text -/

/-- The first line of a declaration of a text. -/
def startLine (d : Declaration Span) : Int :=
  (positionOf (LineIndex.ofText (chars s)) d.span).startLine

/-- All texts that are hashed for the declarations of a text, in the order in which they are. -/
def allHashed (file s : RawText) : List RawText :=
  (declarations (Locate.all (mask (chars s)))).flatMap fun d => hashed file s (startLine s d) d

theorem boundedChunks_eq (limit : Limit) (d : Declaration Span) :
    boundedChunks limit file s (LineIndex.ofText (chars s)) d =
      ((hashed file s (startLine s d) d).mapM encode).map fun _ =>
        SourceChunks.boundedChunks limit (text file) (chars s) (d.read (chars s)) := by
  rw [boundedChunks, bind_eq_map, signed_eq file s (map_text_contents s _ _ d), map_map]
  · simp only [startLine, SourceChunks.boundedChunks, Declaration.read]
  · intro chunk hchunk
    obtain ⟨hkind, hname, hfile, hposition, hid, -⟩ := describes_of_mem_chunksOf hchunk
    rw [hid, hkind, hname, hfile, hposition, Declaration.read_kind]
    rfl
  · exact fun chunk hchunk => (describes_of_mem_chunksOf hchunk).hash

/-- Chunking a text fails where encoding the texts that are hashed fails, and otherwise gives the
chunks of what the text shows. -/
theorem chunkText_eq (limit : Limit) :
    chunkText limit file s = ((allHashed file s).mapM encode).map fun _ =>
      SourceChunks.chunkText limit (text file) (text s) := by
  have hgroups : boundedChunks limit file s (LineIndex.ofText (chars s)) = fun d =>
      ((hashed file s (startLine s d) d).mapM encode).map fun _ =>
        SourceChunks.boundedChunks limit (text file) (chars s) (d.read (chars s)) :=
    funext (boundedChunks_eq file s limit)
  rw [chunkText, bind_eq_map, hgroups, mapM_map_const, allHashed, mapM_flatMap, map_map, map_map,
    chunkText_eq_flatMap, toList_text, declarationsOf, List.flatMap_map, List.flatMap_def]

/-! ## Texts without halves -/

section

variable {file s} {t : RawText} {rows : List RawText}

theorem noHalves_ofString (t : String) : NoHalves (ofString t) := by
  simp [NoHalves, ofString]

theorem NoHalves.of_sublist (h : List.Sublist s t) (ht : NoHalves t) : NoHalves s :=
  fun p hp => ht p (h.subset hp)

theorem NoHalves.append (hs : NoHalves s) (ht : NoHalves t) : NoHalves (s ++ t) :=
  List.forall_mem_append.mpr ⟨hs, ht⟩

theorem NoHalves.intercalate (sep : String) (h : ∀ row ∈ rows, NoHalves row) :
    NoHalves (List.intercalate (ofString sep) rows) := by
  intro p hp
  rcases mem_of_mem_intercalate hp with hp | ⟨row, hrow, hp⟩
  · exact noHalves_ofString sep p hp
  · exact h row hrow p hp

theorem NoHalves.part (h : NoHalves s) (span : Span) : NoHalves (part s span) :=
  h.of_sublist ((List.take_sublist _ _).trans (List.drop_sublist _ _))

theorem stripChars_sublist {α : Type} (drop : α → Bool) (s : List α) :
    (stripChars drop s).Sublist s := by
  rw [stripChars, ← List.reverse_sublist, List.reverse_reverse]
  exact (List.dropWhile_sublist drop).trans (List.reverse_sublist.mpr (List.dropWhile_sublist drop))

theorem NoHalves.trim (h : NoHalves s) : NoHalves (trim s) :=
  h.of_sublist (stripChars_sublist _ s)

theorem NoHalves.trimmed (h : NoHalves s) {span : Span} (ht : t ∈ trimmed? s span) :
    NoHalves t := by
  simp only [trimmed?] at ht
  split_ifs at ht
  · contradiction
  · rw [← Option.mem_some.mp ht]
    exact (h.part span).trim

/-- The letters of words are letters of what is cut into them. -/
theorem mem_of_mem_wordsByFrom {α : Type} {shown : α → Char} {word s w : List α} {a : α}
    (hw : w ∈ Text.wordsByFrom shown word s) (ha : a ∈ w) : a ∈ word ∨ a ∈ s := by
  induction s generalizing word with
  | nil =>
      rw [Text.wordsByFrom] at hw
      split_ifs at hw
      · contradiction
      · rw [List.mem_singleton.mp hw] at ha
        exact .inl (List.mem_reverse.mp ha)
  | cons b rest ih =>
      rw [Text.wordsByFrom] at hw
      split_ifs at hw
      · exact .inr (List.mem_cons_of_mem _ ((ih hw).resolve_left List.not_mem_nil))
      · rcases List.mem_cons.mp hw with rfl | hw
        · exact .inl (List.mem_reverse.mp ha)
        · exact .inr (List.mem_cons_of_mem _ ((ih hw).resolve_left List.not_mem_nil))
      · simpa [or_left_comm, or_assoc] using ih hw

theorem NoHalves.collapse (h : NoHalves s) : NoHalves (collapse s) :=
  .intercalate " " fun _ hw p hp =>
    h p ((mem_of_mem_wordsByFrom hw hp).resolve_left List.not_mem_nil)

/-- The letters of pieces are letters of what is cut into them. -/
theorem mem_of_mem_piecesByFrom {α : Type} {shown : α → Char} {depth : Nat}
    {piece list p : List α} {a : α} (hp : p ∈ piecesByFrom shown depth piece list) (ha : a ∈ p) :
    a ∈ piece ∨ a ∈ list := by
  induction list generalizing depth piece with
  | nil =>
      rw [piecesByFrom] at hp
      rw [List.mem_singleton.mp hp] at ha
      exact .inl (List.mem_reverse.mp ha)
  | cons b rest ih =>
      rw [piecesByFrom] at hp
      split_ifs at hp
      · rcases List.mem_cons.mp hp with rfl | hp
        · exact .inl (List.mem_reverse.mp ha)
        · exact .inr (List.mem_cons_of_mem _ ((ih hp).resolve_left List.not_mem_nil))
      · simpa [or_left_comm, or_assoc] using ih hp

theorem NoHalves.splitParameters (h : NoHalves s) : ∀ t ∈ splitParameters s, NoHalves t := by
  intro t ht
  obtain ⟨piece, hpiece, rfl⟩ := List.mem_map.mp ht
  have hwhole : NoHalves piece := fun p hp =>
    h p ((mem_of_mem_piecesByFrom (List.mem_of_mem_filter hpiece) hp).resolve_left
      List.not_mem_nil)
  exact hwhole.collapse

theorem NoHalves.returnsWords {returns : Option RawText} (h : ∀ t ∈ returns, NoHalves t) :
    ∀ t ∈ returnsWords returns, NoHalves t := by
  intro t ht
  cases returns with
  | none => contradiction
  | some type =>
      simp only [RawText.returnsWords] at ht
      split_ifs at ht
      · contradiction
      · rw [List.mem_singleton.mp ht]
        exact (noHalves_ofString _).append (h type rfl).collapse

theorem NoHalves.call (keyword : String) {name : RawText} {parameters : List RawText}
    (hname : NoHalves name) (hparameters : ∀ t ∈ parameters, NoHalves t) :
    NoHalves (call keyword name parameters) :=
  ((((noHalves_ofString keyword).append hname).append (noHalves_ofString _)).append
    (.intercalate ", " hparameters)).append (noHalves_ofString _)

theorem NoHalves.name (h : NoHalves s) (shape : Shape Span) : NoHalves (name s shape) := by
  cases shape with
  | importClause => exact fun _ hp => absurd hp List.not_mem_nil
  | service header =>
      rw [RawText.name, serviceName]
      split_ifs
      · exact noHalves_ofString _
      · refine .of_sublist ((stripChars_sublist _ _).trans (stripChars_sublist _ _)) ?_
        cases header.path with
        | none => exact fun _ hp => absurd hp List.not_mem_nil
        | some path => exact h.part path
  | resource owner method path callable =>
      exact ((h.part method).append (noHalves_ofString _)).append (h.part path)
  | _ => exact h.part _

/-- The signatures and bodies of a text without halves have none. -/
theorem NoHalves.contents (h : NoHalves s) (d : Declaration Span) :
    ∀ t ∈ contents s d, NoHalves t := by
  have hbody : NoHalves (RawText.trim ((d.body?.map (RawText.part s)).getD [])) := by
    apply NoHalves.trim
    cases d.body? with
    | none => exact fun _ hp => absurd hp List.not_mem_nil
    | some body => exact h.part body
  have hparts : ∀ spans : List Span, ∀ t ∈ spans.map (RawText.part s), NoHalves t := by
    intro spans t ht
    obtain ⟨span, -, rfl⟩ := List.mem_map.mp ht
    exact h.part span
  have hreturns : ∀ callable : Callable Span,
      ∀ t ∈ RawText.returnsWords (callable.returns.bind (trimmed? s)), NoHalves t := by
    intro callable
    refine NoHalves.returnsWords fun t ht => ?_
    obtain ⟨span, -, ht⟩ := Option.mem_bind_iff.mp ht
    exact h.trimmed ht
  obtain ⟨span, shape⟩ := d
  cases shape with
  | function isPublic name callable =>
      refine List.forall_mem_cons.mpr ⟨.intercalate " " ?_, List.forall_mem_singleton.mpr hbody⟩
      refine List.forall_mem_append.mpr ⟨List.forall_mem_append.mpr
        ⟨List.forall_mem_append.mpr ⟨?_, hparts _⟩, ?_⟩, hreturns callable⟩
      · split_ifs
        · exact List.forall_mem_singleton.mpr (noHalves_ofString _)
        · simp
      · exact List.forall_mem_singleton.mpr
          (.call _ (h.part name) (h.part callable.parameters).splitParameters)
  | resource owner method path callable =>
      refine List.forall_mem_cons.mpr ⟨.intercalate " " ?_, List.forall_mem_singleton.mpr hbody⟩
      refine List.forall_mem_append.mpr ⟨List.forall_mem_append.mpr ⟨hparts _, ?_⟩,
        hreturns callable⟩
      exact List.forall_mem_singleton.mpr (.call _
        (((h.part method).append (noHalves_ofString _)).append (h.part path))
        (h.part callable.parameters).splitParameters)
  | service header => exact List.forall_mem_singleton.mpr (h.part _).collapse
  | _ => exact List.forall_mem_singleton.mpr (h.part _)

/-- Nothing that is hashed holds a half if neither the text nor the name of its file does. -/
theorem NoHalves.allHashed (hfile : NoHalves file) (h : NoHalves s) :
    ∀ t ∈ allHashed file s, NoHalves t := by
  intro t ht
  obtain ⟨d, -, ht⟩ := List.mem_flatMap.mp ht
  rcases List.mem_cons.mp ht with rfl | ht
  · exact ((hfile.append (noHalves_ofString _)).append (h.name d.shape)).append
      (noHalves_ofString _)
  · exact h.contents d t ht

end

variable {file s}

end RawText

end SourceChunks
