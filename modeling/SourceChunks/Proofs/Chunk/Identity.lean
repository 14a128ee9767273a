import Mathlib
import SourceChunks.Chunk.Identity
import SourceChunks.Proofs.Text.Rows

/-!
# What identifiers tell

An identifier is the digest of an origin: one text, in which pairs of colons stand between a file,
a kind, a name and a line.  Nothing is escaped in it, so a file or a name may hold such pairs
itself.  No kind and no line has a colon.  So an origin is taken apart from its first pair of colons
on, as long as no earlier one is part of the file, or from its last pair backwards, as long as no
later one is part of the name.

* `append_colons_inj`: the first pair of colons is found again.
* `append_colons_inj_of_notMem'`: so is the last one.
* `provenance_injective`: an origin is read back if its file has no pair of colons.
* `provenance_eq_iff`: so it is if its file is known, or if its name has no colon.
* `Sha256.hexDigest_eq_iff`: the bytes of a text and the digits of a digest lose nothing.
* `chunkId_eq_iff`: what identifiers tell of origins with different digests.
-/

namespace SourceChunks

/-! ## Pairs of colons -/

/-- What stands between the members of an origin. -/
def colons : List Char := [':', ':']

/-- The first pair of colons is found again, if none begins before it. -/
theorem append_colons_inj {a b x y : List Char} (ha : ¬ colons <:+: a) (hb : ¬ colons <:+: b)
    (hx : x.head? ≠ some ':') (hy : y.head? ≠ some ':')
    (h : a ++ colons ++ x = b ++ colons ++ y) : a = b ∧ x = y := by
  wlog hle : a.length ≤ b.length generalizing a b x y
  · obtain ⟨hba, hyx⟩ := this hb ha hy hx h.symm (by omega)
    exact ⟨hba.symm, hyx.symm⟩
  rw [List.append_assoc, List.append_assoc] at h
  obtain ⟨more, rfl⟩ := List.prefix_of_prefix_length_le ⟨_, h⟩ ⟨_, rfl⟩ hle
  rw [List.append_assoc, List.append_cancel_left_eq] at h
  -- One more character would be a colon in front of `y`; two would be the pair.
  match more with
  | [] => exact ⟨(List.append_nil a).symm, List.append_cancel_left h⟩
  | [c] =>
      simp only [colons, List.cons_append, List.nil_append, List.cons.injEq] at h
      exact absurd (by rw [h.2.2, List.head?_cons]) hx
  | c :: d :: more =>
      simp only [colons, List.cons_append, List.cons.injEq] at h
      obtain ⟨rfl, rfl, -⟩ := h
      exact absurd ⟨a, more, List.append_assoc a colons more⟩ hb

/-- The first pair of colons is found again, if no colon is before it. -/
theorem append_colons_inj_of_notMem {a b x y : List Char} (ha : ':' ∉ a) (hb : ':' ∉ b)
    (h : a ++ colons ++ x = b ++ colons ++ y) : a = b ∧ x = y := by
  rw [List.append_assoc, List.append_assoc] at h
  obtain ⟨hab, hxy⟩ := append_unique ha hb (.inr rfl) (.inr rfl) h
  exact ⟨hab, List.append_cancel_left hxy⟩

/-- The last pair of colons is found again, if no colon is behind it. -/
theorem append_colons_inj_of_notMem' {a b x y : List Char} (hx : ':' ∉ x) (hy : ':' ∉ y)
    (h : a ++ colons ++ x = b ++ colons ++ y) : a = b ∧ x = y := by
  -- From behind, it is the first pair.
  have hreverse := congrArg List.reverse h
  simp only [List.reverse_append, ← List.append_assoc] at hreverse
  obtain ⟨hxy, hab⟩ := append_colons_inj_of_notMem (List.mem_reverse.not.mpr hx)
    (List.mem_reverse.not.mpr hy) hreverse
  exact ⟨List.reverse_injective hab, List.reverse_injective hxy⟩

/-! ## Origins -/

theorem colon_notMem_kind (k : Kind) : ':' ∉ k.name.toList := by
  cases k <;> decide

theorem colon_notMem_toString (n : ℤ) : ':' ∉ (toString n).toList := by
  have hdigits : ∀ m : Nat, ':' ∉ (Nat.repr m).toList := by
    intro m hmem
    rw [Nat.toList_repr] at hmem
    exact absurd (Nat.isDigit_of_mem_toDigits (by decide) (by decide) hmem) (by decide)
  cases n with
  | ofNat m => exact hdigits m
  | negSucc m =>
      have hneg : (toString (Int.negSucc m)).toList = '-' :: (Nat.repr (m + 1)).toList :=
        String.toList_append
      rw [hneg, List.mem_cons, not_or]
      exact ⟨by decide, hdigits (m + 1)⟩

section

variable {file file' : String} {kind kind' : Kind} {name name' : Option String} {line line' : ℤ}

theorem toList_provenance (file : String) (kind : Kind) (name : Option String) (line : ℤ) :
    (provenance file kind name line).toList =
      file.toList ++ colons ++ (kind.name.toList ++ colons ++
        ((name.getD "").toList ++ colons ++ (toString line).toList)) := by
  simp [provenance, colons, String.toList_append]

/-- What stands behind the file in an origin is read back. -/
theorem behindFile_inj
    (h : kind.name.toList ++ colons ++ ((name.getD "").toList ++ colons ++ (toString line).toList) =
      kind'.name.toList ++ colons ++
        ((name'.getD "").toList ++ colons ++ (toString line').toList)) :
    kind = kind' ∧ name.getD "" = name'.getD "" ∧ line = line' := by
  obtain ⟨hkinds, hrest⟩ :=
    append_colons_inj_of_notMem (colon_notMem_kind kind) (colon_notMem_kind kind') h
  obtain ⟨hnames, hlines⟩ := append_colons_inj_of_notMem' (colon_notMem_toString line)
    (colon_notMem_toString line') hrest
  exact ⟨Kind.name_injective (String.toList_injective hkinds), String.toList_injective hnames,
    Int.repr_injective (String.toList_injective hlines)⟩

/-- An origin is read back from its text, if its file has no pair of colons.  No name counts as the
empty one. -/
theorem provenance_injective (hfile : ¬ colons <:+: file.toList)
    (hfile' : ¬ colons <:+: file'.toList)
    (h : provenance file kind name line = provenance file' kind' name' line') :
    file = file' ∧ kind = kind' ∧ name.getD "" = name'.getD "" ∧ line = line' := by
  have hlist := congrArg String.toList h
  have hhead : ∀ (k : Kind) (rest : List Char),
      (k.name.toList ++ colons ++ rest).head? ≠ some ':' := by
    intro k rest
    cases k <;> simp [Kind.name]
  rw [toList_provenance, toList_provenance] at hlist
  obtain ⟨hfiles, hlist⟩ := append_colons_inj hfile hfile' (hhead _ _) (hhead _ _) hlist
  exact ⟨String.toList_injective hfiles, behindFile_inj hlist⟩

/-- Two origins have the same text only if they agree, if they are of one file, or if neither name
has a colon. -/
theorem provenance_eq_iff
    (h : file = file' ∨ ':' ∉ (name.getD "").toList ∧ ':' ∉ (name'.getD "").toList) :
    provenance file kind name line = provenance file' kind' name' line' ↔
      file = file' ∧ kind = kind' ∧ name.getD "" = name'.getD "" ∧ line = line' := by
  constructor
  · intro heq
    have hlist := congrArg String.toList heq
    rw [toList_provenance, toList_provenance] at hlist
    rcases h with rfl | ⟨hname, hname'⟩
    · exact ⟨rfl, behindFile_inj (List.append_cancel_left hlist)⟩
    · -- The members come off from behind: the line, the name, the kind.
      simp only [← List.append_assoc] at hlist
      obtain ⟨hlist, hlines⟩ := append_colons_inj_of_notMem' (colon_notMem_toString line)
        (colon_notMem_toString line') hlist
      obtain ⟨hlist, hnames⟩ := append_colons_inj_of_notMem' hname hname' hlist
      obtain ⟨hfiles, hkinds⟩ := append_colons_inj_of_notMem' (colon_notMem_kind kind)
        (colon_notMem_kind kind') hlist
      exact ⟨String.toList_injective hfiles, Kind.name_injective (String.toList_injective hkinds),
        String.toList_injective hnames, Int.repr_injective (String.toList_injective hlines)⟩
  · rintro ⟨rfl, rfl, hnames, rfl⟩
    unfold provenance
    rw [hnames]

/-- A name with a colon can say the same as another file. -/
example : provenance "a" .function (some "b::Function::c") 1 =
    provenance "a::Function::b" .function (some "c") 1 := by decide

end

/-! ## Digests -/

/-- Numbers that have no more digits than are written have different ones. -/
theorem Text.hexDigits_inj {width m n : Nat} (hm : m < 16 ^ width) (hn : n < 16 ^ width)
    (h : Text.hexDigits width m = Text.hexDigits width n) : m = n := by
  induction width generalizing m n with
  | zero => omega
  | succ width ih =>
      rw [Nat.pow_succ] at hm hn
      obtain ⟨hfront, hlast⟩ := List.append_inj' h rfl
      have hdiv : m / 16 = n / 16 := ih (by omega) (by omega) hfront
      have hmod : m % 16 = n % 16 :=
        Text.hexDigit_inj (Nat.mod_lt m (by decide)) (Nat.mod_lt n (by decide))
          (List.singleton_inj.mp hlast)
      omega

namespace Sha256

@[simp] theorem length_wordHex (w : UInt32) : (wordHex w).length = 8 :=
  Text.length_hexDigits 8 w.toNat

theorem wordHex_inj {w w' : UInt32} (h : wordHex w = wordHex w') : w = w' :=
  UInt32.toNat_inj.mp (Text.hexDigits_inj w.toNat_lt w'.toNat_lt h)

theorem length_flatMap_wordHex (words : List UInt32) :
    (words.flatMap wordHex).length = words.length * 8 := by
  simp [List.length_flatMap, length_wordHex]

theorem flatMap_wordHex_inj {words words' : List UInt32}
    (h : words.flatMap wordHex = words'.flatMap wordHex) : words = words' := by
  induction words generalizing words' with
  | nil =>
      have hlength := length_flatMap_wordHex words'
      rw [← h, List.flatMap_nil, List.length_nil] at hlength
      exact (List.eq_nil_of_length_eq_zero (by omega)).symm
  | cons w words ih =>
      cases words' with
      | nil =>
          have hlength := length_flatMap_wordHex (w :: words)
          rw [h, List.flatMap_nil, List.length_nil, List.length_cons] at hlength
          omega
      | cons w' words' =>
          rw [List.flatMap_cons, List.flatMap_cons] at h
          obtain ⟨hfirst, hrest⟩ :=
            List.append_inj h (by rw [length_wordHex, length_wordHex])
          rw [wordHex_inj hfirst, ih hrest]

@[simp] theorem length_hexDigest (text : String) : (hexDigest text).toList.length = 64 := by
  rw [hexDigest, String.toList_ofList, length_flatMap_wordHex]
  rfl

/-- Two texts have the same digits only if their bytes have the same digest. -/
theorem hexDigest_eq_iff {text text' : String} :
    hexDigest text = hexDigest text' ↔ digest text.toUTF8 = digest text'.toUTF8 := by
  constructor
  · intro h
    have hwords := flatMap_wordHex_inj (String.ofList_injective h)
    cases hstate : digest text.toUTF8
    cases hstate' : digest text'.toUTF8
    simpa only [hstate, hstate', List.cons.injEq, and_true, State.mk.injEq] using hwords
  · intro h
    rw [hexDigest, hexDigest, h]

end Sha256

/-! ## Identifiers -/

/-- Two identifiers are the same if and only if their declarations agree in their file, kind, name
and line, where no name counts as the empty one.  This holds if the bytes of both origins are among
messages that all have different digests, for declarations of one file, whatever their names, and
for those of any two files if neither name has a colon. -/
theorem chunkId_eq_iff {messages : Set ByteArray} (hdigest : messages.InjOn Sha256.digest)
    {file file' : String} {kind kind' : Kind} {name name' : Option String} {line line' : ℤ}
    (hmem : (provenance file kind name line).toUTF8 ∈ messages)
    (hmem' : (provenance file' kind' name' line').toUTF8 ∈ messages)
    (hnames : file = file' ∨ ':' ∉ (name.getD "").toList ∧ ':' ∉ (name'.getD "").toList) :
    chunkId file kind name line = chunkId file' kind' name' line' ↔
      file = file' ∧ kind = kind' ∧ name.getD "" = name'.getD "" ∧ line = line' := by
  have hids : chunkId file kind name line = chunkId file' kind' name' line' ↔
      provenance file kind name line = provenance file' kind' name' line' := by
    rw [chunkId, chunkId, Sha256.hexDigest_eq_iff, hdigest.eq_iff hmem hmem']
    exact String.toByteArray_inj
  rw [hids, provenance_eq_iff hnames]

/-- Three origins with pairs of colons in a file or next to a name. -/
def colonOrigins : List String :=
  [provenance "a" .function (some ":") 1, provenance "a" .function none 1,
    provenance "a::Function:" .function none 1]

theorem chunkId_eq_iff_colonOrigins :
    Set.InjOn Sha256.digest {message | message ∈ colonOrigins.map String.toUTF8} ∧
      chunkId "a" .function (some ":") 1 ≠ chunkId "a" .function none 1 ∧
      chunkId "a" .function none 1 ≠ chunkId "a::Function:" .function none 1 := by
  have hdigest : Set.InjOn Sha256.digest {message | message ∈ colonOrigins.map String.toUTF8} := by
    have hnodup : ((colonOrigins.map String.toUTF8).map Sha256.digest).Nodup := by
      decide +kernel
    intro message hmem message' hmem' heq
    exact List.inj_on_of_nodup_map hnodup hmem hmem' heq
  have hmem : ∀ origin ∈ colonOrigins,
      origin.toUTF8 ∈ {message | message ∈ colonOrigins.map String.toUTF8} :=
    fun origin horigin => List.mem_map_of_mem horigin
  have hfirst : provenance "a" .function (some ":") 1 ∈ colonOrigins := by simp [colonOrigins]
  have hsecond : provenance "a" .function none 1 ∈ colonOrigins := by simp [colonOrigins]
  have hthird : provenance "a::Function:" .function none 1 ∈ colonOrigins := by simp [colonOrigins]
  refine ⟨hdigest, ?_, ?_⟩
  · rw [ne_eq, chunkId_eq_iff hdigest (hmem _ hfirst) (hmem _ hsecond) (.inl rfl)]
    decide
  · rw [ne_eq, chunkId_eq_iff hdigest (hmem _ hsecond) (hmem _ hthird) (.inr (by decide))]
    decide

end SourceChunks
