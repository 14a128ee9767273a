import Mathlib
import SourceChunks.Declaration.Names
import SourceChunks.Declaration.Signature
import SourceChunks.Proofs.Declaration.Widened

/-!
# Reading declarations from a text with carriage returns

What is read from a text with carriage returns is what is read from the text, with carriage
returns in its words.  Names and paths are made of these words by looking at quotes, slashes and
dots only, and signatures and parameters by looking at words only.

* `Declaration.read_place`: the words of a declaration.
* `Declaration.place_name`, `fullPath_crlf`: its name and its path.
* `splitParameters_crlf`, `collapsed_crlf`: what is written on one line is the same.
* `withoutCr_functionSignature`, `withoutCr_resourceSignature`: signatures.
-/

namespace SourceChunks

open Text

/-! ## Words -/

section

variable (text : List Char)

@[simp] theorem readPart_crlf (span : Span) :
    readPart (withReturns text) (span.place (wideOffset text)) = crlf (readPart text span) := by
  rw [readPart, slice_withReturns, readPart, crlf_ofList]

theorem readTrimmed_crlf (span : Span) :
    readTrimmed (withReturns text) (span.place (wideOffset text)) =
      (readTrimmed text span).map crlf := by
  rw [readTrimmed, readTrimmed, slice_withReturns, trim_withReturns]
  simp only [isEmpty_withReturns]
  split_ifs
  · rfl
  · rw [Option.map_some, crlf_ofList]

theorem Callable.read_place (callable : Callable Span) :
    (callable.place (Span.place (wideOffset text)) (wideOffset text)).read (withReturns text) =
      (callable.read text).place crlf (wideOffset text) := by
  obtain ⟨qualifiers, parameters, returns, opening⟩ := callable
  simp only [place, read, List.map_map, Option.bind_map, Option.map_bind, Function.comp_def,
    readPart_crlf, readTrimmed_crlf]

theorem Service.read_place (service : Service Span) :
    (service.place (Span.place (wideOffset text)) (wideOffset text)).read (withReturns text) =
      (service.read text).place crlf (wideOffset text) := by
  obtain ⟨path, listener, opening⟩ := service
  simp only [place, read, Option.map_map, Option.bind_map, Option.map_bind, Function.comp_def,
    readPart_crlf, readTrimmed_crlf]

theorem Shape.read_place (shape : Shape Span) :
    (shape.place (Span.place (wideOffset text)) (wideOffset text)).read (withReturns text) =
      (shape.read text).place crlf (wideOffset text) := by
  cases shape with
  | importClause => rfl
  | configurable isPublic type name => rw [place, read, readPart_crlf, readPart_crlf]; rfl
  | moduleVariable type name => rw [place, read, readPart_crlf, readPart_crlf]; rfl
  | typeDefinition isPublic name => rw [place, read, readPart_crlf]; rfl
  | function isPublic name callable => rw [place, read, readPart_crlf, Callable.read_place]; rfl
  | service header => exact congrArg Shape.service (Service.read_place text header)
  | resource owner method path callable =>
      rw [place, read, readPart_crlf, readPart_crlf, Service.read_place, Callable.read_place]
      rfl
  | classDefinition isPublic name => rw [place, read, readPart_crlf]; rfl
  | constant isPublic type name =>
      rw [place, read, readPart_crlf]
      simp only [Option.map_map, Function.comp_def, readPart_crlf, read, place]

/-- From a text with carriage returns the same is read, with carriage returns. -/
theorem Declaration.read_place (d : Declaration Span) :
    (d.place (Span.place (wideOffset text)) (wideOffset text)).read (withReturns text) =
      (d.read text).place crlf (wideOffset text) := by
  rw [read, place]
  exact congrArg (Declaration.mk _) (Shape.read_place text d.shape)

end

/-! ## Names and paths -/

theorem stripChars_withReturns (drop : Char → Bool) (h : drop '\r' = drop '\n') (s : List Char) :
    stripChars drop (withReturns s) = withReturns (stripChars drop s) := by
  have hstrip : ∀ s, stripChars drop s = (s.dropWhile drop).rdropWhile drop := fun _ => rfl
  rw [hstrip, hstrip, dropWhile_withReturns h, rdropWhile_withReturns h]

theorem segmentsFrom_withReturns (segment s : List Char) :
    segmentsFrom (heldReturns segment) (withReturns s) =
      (segmentsFrom segment s).map withReturns := by
  induction s generalizing segment with
  | nil =>
      rw [show withReturns [] = [] from rfl, segmentsFrom, segmentsFrom, isEmpty_heldReturns,
        reverse_heldReturns]
      split_ifs <;> rfl
  | cons c s ih =>
      by_cases hc : c = '\n'
      · subst hc
        rw [withReturns_newline, segmentsFrom, if_neg (by decide), segmentsFrom,
          if_neg (by decide), ← heldReturns_newline, ih, segmentsFrom, if_neg (by decide)]
      · have hnext : segmentsFrom [] (withReturns s) = (segmentsFrom [] s).map withReturns := ih []
        rw [withReturns_cons hc, segmentsFrom, segmentsFrom, ← heldReturns_cons hc,
          isEmpty_heldReturns, reverse_heldReturns, ih, hnext]
        split_ifs <;> rfl

@[simp] theorem segments_withReturns (path : List Char) :
    segments (withReturns path) = (segments path).map withReturns :=
  segmentsFrom_withReturns [] path

theorem getD_map_crlf (part : Option String) {other : String} (hother : '\n' ∉ other.toList) :
    (part.map crlf).getD other = crlf (part.getD other) := by
  cases part with
  | none => exact (crlf_eq_self hother).symm
  | some part => rfl

@[simp] theorem serviceName_crlf (path : Option String) :
    serviceName (path.map crlf) = crlf (serviceName path) := by
  unfold serviceName
  rw [getD_map_crlf path (by decide), toList_crlf, stripChars_withReturns _ (by decide),
    stripChars_withReturns _ (by decide)]
  simp only [isEmpty_withReturns]
  split_ifs
  · rw [crlf_eq_self (by decide)]
  · rw [crlf_ofList]

@[simp] theorem fullPath_crlf (servicePath resourcePath : String) :
    fullPath (crlf servicePath) (crlf resourcePath) = crlf (fullPath servicePath resourcePath) := by
  unfold fullPath
  simp only [toList_crlf, stripChars_withReturns (· == '"') (by decide),
    segments_withReturns, crlf_eq_iff (t := ".") (by decide), crlf_ofList]
  rw [withReturns_cons (by decide), withReturns_intercalate, List.map_append]
  split_ifs <;> rfl

section

variable (φ : Nat → Nat)

@[simp] theorem Service.place_name (service : Service String) :
    (service.place crlf φ).name = crlf service.name :=
  serviceName_crlf service.path

@[simp] theorem Service.place_route (service : Service String) :
    (service.place crlf φ).route = crlf service.route :=
  getD_map_crlf service.path (by decide)

/-- The name of a declaration. -/
@[simp] theorem Declaration.place_name (d : Declaration String) :
    (d.place crlf φ).name? = d.name?.map crlf := by
  obtain ⟨span, shape⟩ := d
  cases shape with
  | service header => exact congrArg some (header.place_name φ)
  | resource owner method path callable =>
      show some (crlf method ++ " " ++ crlf path) = some (crlf (method ++ " " ++ path))
      rw [crlf_append, crlf_append, crlf_eq_self (s := " ") (by decide)]
  | _ => rfl

end

/-! ## Parameters and signatures -/

/-- White space is reduced to the same, however lines end. -/
@[simp] theorem collapsed_crlf (s : String) : collapsed (crlf s) = collapsed s := by
  rw [collapsed, collapsed, toList_crlf, collapse_withReturns]

theorem piecesFrom_withReturns (depth : Nat) (piece s : List Char) :
    piecesFrom depth (heldReturns piece) (withReturns s) =
      (piecesFrom depth piece s).map withReturns := by
  induction s generalizing depth piece with
  | nil =>
      rw [show withReturns [] = [] from rfl, piecesFrom, piecesFrom, reverse_heldReturns]
      rfl
  | cons c s ih =>
      by_cases hc : c = '\n'
      · subst hc
        show piecesFrom depth ('\n' :: '\r' :: heldReturns piece) (withReturns s) =
          (piecesFrom depth ('\n' :: piece) s).map withReturns
        rw [← heldReturns_newline, ih]
      · have hnext : piecesFrom 0 [] (withReturns s) = (piecesFrom 0 [] s).map withReturns :=
          ih 0 []
        rw [withReturns_cons hc, piecesFrom, piecesFrom, ← heldReturns_cons hc,
          reverse_heldReturns, ih, hnext]
        split_ifs <;> rfl

/-- The parameters of a list are the same, however lines end. -/
@[simp] theorem splitParameters_crlf (raw : String) :
    splitParameters (crlf raw) = splitParameters raw := by
  unfold splitParameters
  have hpieces : piecesFrom 0 [] (withReturns raw.toList) =
      (piecesFrom 0 [] raw.toList).map withReturns := piecesFrom_withReturns 0 [] raw.toList
  have hblank : (fun piece => !allBlank piece) ∘ withReturns = fun piece => !allBlank piece :=
    funext fun piece => congrArg (!·) (allBlank_withReturns piece)
  rw [toList_crlf, hpieces, List.filter_map, hblank, List.map_map]
  exact List.map_congr_left fun piece _ => congrArg String.ofList (collapse_withReturns piece)

@[simp] theorem returnsWords_crlf (returns : Option String) :
    returnsWords (returns.map crlf) = returnsWords returns := by
  cases returns with
  | none => rfl
  | some type =>
      simp only [Option.map_some, returnsWords, isEmpty_crlf, collapsed_crlf]

theorem map_withoutCr_crlf (words : List String) :
    (words.map crlf).map withoutCr = words.map withoutCr := by
  rw [List.map_map]
  exact List.map_congr_left fun word _ => withoutCr_crlf word

theorem withoutCr_functionSignature (isPublic : Bool) (qualifiers : List String) (name : String)
    (parameters : List String) (returns : Option String) :
    withoutCr (functionSignature isPublic (qualifiers.map crlf) (crlf name) parameters
        (returns.map crlf)) =
      withoutCr (functionSignature isPublic qualifiers name parameters returns) := by
  simp only [functionSignature, returnsWords_crlf, withoutCr_intercalate, List.map_append,
    map_withoutCr_crlf, List.map_cons, withoutCr_append, withoutCr_crlf]

theorem withoutCr_resourceSignature (qualifiers : List String) (method path : String)
    (parameters : List String) (returns : Option String) :
    withoutCr (resourceSignature (qualifiers.map crlf) (crlf method) (crlf path) parameters
        (returns.map crlf)) =
      withoutCr (resourceSignature qualifiers method path parameters returns) := by
  simp only [resourceSignature, returnsWords_crlf, withoutCr_intercalate, List.map_append,
    map_withoutCr_crlf, List.map_cons, withoutCr_append, withoutCr_crlf]

end SourceChunks
