import Mathlib
import SourceChunks.Files.Tree

/-!
# Written files are read back

A file that was written at a path that stays within the tree is found at the same path
with the bytes that were written, also if the path goes up and down on its way.

* `follow`: what some names without double dots lead to.
* `Coherent`: the directories above an entry are the ones it was reached through.
* `follow_put_directory`: a new file leaves every directory a directory.
* `locate_put`: what is put at a path is found there.
* `read_write`: the bytes of a written file are the ones written.
* `hasDirectory_of_makeDirectories`: a directory that was made is there.
* `exists_write_child_iff`: when a file can be written in a directory.
-/

namespace SourceChunks

namespace Entry

/-! ## Names without double dots -/

/-- What some names lead to, each of which is taken as the name of an entry. -/
def follow (here : Entry) : List String → Option Entry
  | [] => some here
  | name :: rest =>
      match lookup name here.entries with
      | some entry => entry.follow rest
      | none => none

@[simp] theorem follow_append (here : Entry) (names more : List String) :
    here.follow (names ++ more) = (here.follow names).bind (·.follow more) := by
  induction names generalizing here with
  | nil => rfl
  | cons name names ih =>
      rw [List.cons_append, follow, follow]
      cases lookup name here.entries with
      | none => rfl
      | some entry => exact ih entry

@[simp] theorem follow_singleton {here entry : Entry} {name : String} :
    here.follow [name] = some entry ↔ lookup name here.entries = some entry := by
  rw [follow]
  cases lookup name here.entries with
  | none => simp
  | some found => rfl

@[simp] theorem lookup_cons (name : String) (first : String × Entry) (entries : List (String × Entry)) :
    lookup name (first :: entries) = if first.1 = name then some first.2 else lookup name entries := by
  by_cases hfirst : first.1 = name
  · simp [lookup, hfirst]
  · have hfalse : (first.1 == name) = false := by simpa using hfirst
    simp [lookup, hfirst, hfalse]

/-- The entry that was put in is found, and the others are found as before. -/
@[simp] theorem lookup_putEntry (name other : String) (entry : Entry) (entries : List (String × Entry)) :
    lookup other (putEntry name entry entries) =
      if name = other then some entry else lookup other entries := by
  induction entries with
  | nil => simp [putEntry, lookup_cons]
  | cons first entries ih =>
      obtain ⟨n, e⟩ := first
      by_cases hn : n = name
      · subst hn
        by_cases hother : n = other
        · simp [putEntry, lookup_cons, hother]
        · simp [putEntry, lookup_cons, hother]
      · by_cases hother : name = other
        · subst hother
          simp [putEntry, lookup_cons, hn, ih]
        · simp [putEntry, lookup_cons, hn, hother, ih]

theorem put_cons (here entry : Entry) {name : String} (hname : name ≠ "..") (rest : List String) :
    here.put entry (name :: rest) =
      directory (putEntry name
        (((lookup name here.entries).getD (directory [])).put entry rest) here.entries) := by
  have hfalse : (name == "..") = false := by simpa using hname
  rw [put, hfalse]
  rfl

/-- What is put somewhere is there. -/
theorem follow_put_self (here entry : Entry) {target : List String} (htarget : ".." ∉ target) :
    (here.put entry target).follow target = some entry := by
  induction target generalizing here with
  | nil => rfl
  | cons name target ih =>
      obtain ⟨hname, hrest⟩ := not_or.mp (List.mem_cons.not.mp htarget)
      rw [put_cons here entry (Ne.symm hname), follow, entries, lookup_putEntry, if_pos rfl]
      exact ih _ hrest

/-- What is put where no directory is leaves every directory in its place. -/
theorem follow_put_directory {here entry : Entry} {target : List String} (htarget : ".." ∉ target)
    (hfree : ∀ found, here.follow target = some found → found.isDirectory = false)
    {taken : List String} {found : Entry} (hfound : here.follow taken = some found)
    (hdirectory : found.isDirectory = true) :
    ∃ found', (here.put entry target).follow taken = some found' ∧ found'.isDirectory = true := by
  induction taken generalizing here target with
  | nil =>
      obtain rfl : here = found := Option.some.inj hfound
      cases target with
      | nil =>
          have hfile := hfree here rfl
          rw [hdirectory] at hfile
          contradiction
      | cons name target =>
          have hname : name ≠ ".." := fun h => htarget (h ▸ List.mem_cons_self)
          exact ⟨_, rfl, by rw [put_cons here entry hname]; rfl⟩
  | cons step taken ih =>
      rw [follow] at hfound
      cases hstep : lookup step here.entries with
      | none =>
          rw [hstep] at hfound
          contradiction
      | some next =>
          rw [hstep] at hfound
          cases target with
          | nil =>
              -- An entry that something was found below is a directory.
              have hfile := hfree here rfl
              cases here with
              | file bytes => contradiction
              | directory entries => contradiction
          | cons name target =>
              obtain ⟨hname, hrest⟩ := not_or.mp (List.mem_cons.not.mp htarget)
              rw [put_cons here entry (Ne.symm hname), follow, entries, lookup_putEntry]
              -- Only the entry on the way to the new one changes, and it stays a directory.
              by_cases hsame : name = step
              · subst hsame
                rw [if_pos rfl, hstep]
                refine ih hrest (fun other hother => hfree other ?_) hfound
                rw [follow, hstep]
                exact hother
              · rw [if_neg hsame, hstep]
                exact ⟨found, hfound, hdirectory⟩

/-! ## Ways through the tree -/

/-- The directories above an entry, the nearest first, are the ones it was reached
through, and none of the names on the way is a double dot. -/
def Coherent (top : Entry) : List (String × Entry) → Entry → Prop
  | [], here => here = top
  | (name, parent) :: above, here =>
      name ≠ ".." ∧ parent.isDirectory = true ∧ lookup name parent.entries = some here ∧
        Coherent top above parent

theorem Coherent.follow_eq {top here : Entry} {above : List (String × Entry)}
    (h : Coherent top above here) : top.follow (above.map (·.1)).reverse = some here := by
  induction above generalizing here with
  | nil => rw [Coherent.eq_1] at h; rw [h]; rfl
  | cons step above ih =>
      obtain ⟨name, parent⟩ := step
      obtain ⟨-, -, hlookup, habove⟩ := h
      rw [List.map_cons, List.reverse_cons, follow_append, ih habove]
      exact follow_singleton.mpr hlookup

theorem Coherent.names {top here : Entry} {above : List (String × Entry)}
    (h : Coherent top above here) : ".." ∉ above.map (·.1) := by
  induction above generalizing here with
  | nil => simp
  | cons step above ih =>
      obtain ⟨name, parent⟩ := step
      obtain ⟨hname, -, -, habove⟩ := h
      simpa [hname.symm] using ih habove

theorem locateFrom_up (step : String × Entry) (above : List (String × Entry)) {here : Entry}
    (hhere : here.isDirectory = true) (rest : List String) :
    locateFrom (step :: above) here (".." :: rest) = locateFrom above step.2 rest := by
  cases here with
  | file bytes => contradiction
  | directory entries => rfl

theorem locateFrom_down (above : List (String × Entry)) {here entry : Entry}
    (hhere : here.isDirectory = true) {name : String} (hname : name ≠ "..")
    (hlong : isTooLong name = false) (hlookup : lookup name here.entries = some entry)
    (rest : List String) :
    locateFrom above here (name :: rest) = locateFrom ((name, here) :: above) entry rest := by
  cases here with
  | file bytes => contradiction
  | directory entries =>
      have hfalse : (name == "..") = false := by simpa using hname
      have hentries : lookup name entries = some entry := hlookup
      simp only [locateFrom, hfalse, hlong, hentries, Bool.false_eq_true, if_false]

/-- What a way through the tree does with its first name. -/
theorem locateFrom_cons {above : List (String × Entry)} {here : Entry} {name : String}
    {rest : List String} {place : List String × Entry}
    (h : locateFrom above here (name :: rest) = .ok place) :
    here.isDirectory = true ∧
      ((name = ".." ∧ above = [] ∧ locateOutside rest = .ok place) ∨
        (name = ".." ∧ ∃ step above', above = step :: above' ∧
          locateFrom above' step.2 rest = .ok place) ∨
        (name ≠ ".." ∧ isTooLong name = false ∧ ∃ entry, lookup name here.entries = some entry ∧
          locateFrom ((name, here) :: above) entry rest = .ok place)) := by
  cases here with
  | file bytes => exact absurd h (by simp [locateFrom])
  | directory entries =>
      refine ⟨rfl, ?_⟩
      by_cases hname : name = ".."
      · subst hname
        cases above with
        | nil => exact .inl ⟨rfl, rfl, h⟩
        | cons step above => exact .inr (.inl ⟨rfl, step, above, rfl, h⟩)
      · have hfalse : (name == "..") = false := by simpa using hname
        simp only [locateFrom, hfalse, Bool.false_eq_true, if_false] at h
        split at h
        · contradiction
        · rename_i hlong
          split at h
          · contradiction
          · rename_i entry hlookup
            exact .inr (.inr ⟨hname, by simpa using hlong, entry, hlookup, h⟩)

theorem locateOutside_ok {rest : List String} {place : List String × Entry}
    (h : locateOutside rest = .ok place) : place = ([".."], directory []) := by
  induction rest with
  | nil => exact (Except.ok.inj h).symm
  | cons name rest ih =>
      rw [locateOutside] at h
      split_ifs at h with hname
      exact ih h

/-- A way that ends at a directory within a tree can be gone in every tree that has
directories in the same places, and what comes behind it continues from there. -/
theorem locateFrom_transfer {top top' : Entry}
    (hkept : ∀ taken found, top.follow taken = some found → found.isDirectory = true →
      ∃ found', top'.follow taken = some found' ∧ found'.isDirectory = true)
    {rest names : List String} {last : Entry} (hlast : last.isDirectory = true)
    (hinside : names ≠ [".."]) {above above' : List (String × Entry)} {here here' : Entry}
    (hcoherent : Coherent top above here) (hcoherent' : Coherent top' above' here')
    (hsame : above.map (·.1) = above'.map (·.1))
    (h : locateFrom above here rest = .ok (names, last)) :
    ∃ above₂ here₂, Coherent top' above₂ here₂ ∧ (above₂.map (·.1)).reverse = names ∧
      here₂.isDirectory = true ∧
      ∀ tail, locateFrom above' here' (rest ++ tail) = locateFrom above₂ here₂ tail := by
  have hdirectory : here.isDirectory = true → here'.isDirectory = true := by
    intro hhere
    obtain ⟨found', hfound', hfound'dir⟩ := hkept _ here hcoherent.follow_eq hhere
    rw [hsame, hcoherent'.follow_eq] at hfound'
    rwa [Option.some.inj hfound']
  -- Step by step through both trees, with the same names taken in each of them.
  induction rest generalizing above above' here here' with
  | nil =>
      obtain ⟨rfl, rfl⟩ := Prod.mk.inj (Except.ok.inj h)
      exact ⟨above', here', hcoherent', by rw [hsame], hdirectory hlast, fun tail => rfl⟩
  | cons name rest ih =>
      obtain ⟨hhere, ⟨-, -, houtside⟩ | ⟨rfl, step, above₁, rfl, hup⟩ |
        ⟨hname, hlong, entry, hlookup, hdown⟩⟩ := locateFrom_cons h
      · exact absurd (congrArg Prod.fst (locateOutside_ok houtside)) hinside
      · obtain ⟨n, parent⟩ := step
        cases above' with
        | nil => contradiction
        | cons step' above₁' =>
            obtain ⟨n', parent'⟩ := step'
            obtain ⟨-, hsame₁⟩ := List.cons.inj hsame
            obtain ⟨-, hparent, -, hcoherent₁⟩ := hcoherent
            obtain ⟨-, hparent', -, hcoherent₁'⟩ := hcoherent'
            obtain ⟨above₂, here₂, hcoherent₂, hnames, hhere₂, htail⟩ :=
              ih hcoherent₁ hcoherent₁' hsame₁ hup (fun _ => hparent')
            refine ⟨above₂, here₂, hcoherent₂, hnames, hhere₂, fun tail => ?_⟩
            rw [List.cons_append, locateFrom_up _ _ (hdirectory hhere)]
            exact htail tail
      · -- The way goes on from this entry, or ends at it, so that it is a directory.
        have hentry : entry.isDirectory = true := by
          cases entry with
          | directory entries => rfl
          | file bytes =>
              cases rest with
              | nil =>
                  obtain ⟨-, rfl⟩ := Prod.mk.inj (Except.ok.inj hdown)
                  exact hlast
              | cons next rest => exact absurd hdown (by simp [locateFrom])
        have hnext : Coherent top ((name, here) :: above) entry :=
          ⟨hname, hhere, hlookup, hcoherent⟩
        obtain ⟨entry', hfound', hentry'⟩ := hkept _ entry hnext.follow_eq hentry
        have hlookup' : lookup name here'.entries = some entry' := by
          rw [List.map_cons, List.reverse_cons, hsame, follow_append, hcoherent'.follow_eq] at hfound'
          exact follow_singleton.mp hfound'
        have hnext' : Coherent top' ((name, here') :: above') entry' :=
          ⟨hname, hdirectory hhere, hlookup', hcoherent'⟩
        obtain ⟨above₂, here₂, hcoherent₂, hnames, hhere₂, htail⟩ :=
          ih hnext hnext' (by rw [List.map_cons, List.map_cons, hsame]) hdown (fun _ => hentry')
        refine ⟨above₂, here₂, hcoherent₂, hnames, hhere₂, fun tail => ?_⟩
        rw [List.cons_append, locateFrom_down above' (hdirectory hhere) hname hlong hlookup']
        exact htail tail

/-! ## Paths that stay inside -/

/-- What the next name of a path makes of the names taken so far, the latest first. -/
def takeName (taken : List String) (name : String) : List String :=
  match taken with
  | last :: rest => if name == ".." && last != ".." then rest else name :: taken
  | [] => [name]

theorem resolved_names (path : Path) :
    path.resolved.names = (path.names.foldl takeName []).reverse := rfl

theorem takeName_up {last : String} (hlast : last ≠ "..") (taken : List String) :
    takeName (last :: taken) ".." = taken := by
  simp [takeName, hlast]

theorem takeName_down {name : String} (hname : name ≠ "..") (taken : List String) :
    takeName taken name = name :: taken := by
  cases taken with
  | nil => rfl
  | cons last taken => simp [takeName, hname]

/-- A double dot that was taken first is never taken back. -/
theorem getLast_foldl_takeName (names : List String) {taken : List String}
    (htaken : taken.getLast? = some "..") :
    (names.foldl takeName taken).getLast? = some ".." := by
  induction names generalizing taken with
  | nil => exact htaken
  | cons name names ih =>
      refine ih ?_
      cases taken with
      | nil => contradiction
      | cons last rest =>
          -- Only the latest name can be taken back, and a double dot cannot.
          cases rest with
          | nil =>
              obtain rfl : last = ".." := Option.some.inj htaken
              simp [takeName]
          | cons next rest =>
              rw [List.getLast?_cons_cons] at htaken
              simp only [takeName]
              split_ifs
              · exact htaken
              · rw [List.getLast?_cons_cons, List.getLast?_cons_cons]
                exact htaken

/-- A way that ends outside a tree has a double dot left in front. -/
theorem getLast_of_locateFrom_outside {top : Entry} {rest : List String} {last : Entry}
    {above : List (String × Entry)} {here : Entry} (hcoherent : Coherent top above here)
    (h : locateFrom above here rest = .ok ([".."], last)) :
    (rest.foldl takeName (above.map (·.1))).getLast? = some ".." := by
  induction rest generalizing above here with
  | nil =>
      have hnames : (above.map (·.1)).reverse = [".."] := congrArg Prod.fst (Except.ok.inj h)
      refine absurd ?_ hcoherent.names
      rw [← List.mem_reverse, hnames]
      exact List.mem_singleton_self _
  | cons name rest ih =>
      obtain ⟨hhere, ⟨rfl, rfl, -⟩ | ⟨rfl, ⟨n, parent⟩, above, rfl, hup⟩ |
        ⟨hname, -, entry, hlookup, hdown⟩⟩ := locateFrom_cons h
      · exact getLast_foldl_takeName rest rfl
      · obtain ⟨hn, -, -, habove⟩ := hcoherent
        rw [List.foldl_cons, List.map_cons, takeName_up hn]
        exact ih habove hup
      · rw [List.foldl_cons, takeName_down hname]
        have hnext : Coherent top ((name, here) :: above) entry :=
          ⟨hname, hhere, hlookup, hcoherent⟩
        exact ih hnext hdown

/-- Where a path that does not lead outside ends is inside. -/
theorem names_ne_of_inside {top last : Entry} {path : Path} {names : List String}
    (hinside : path.leadsOutside = false) (h : locateFrom [] top path.names = .ok (names, last)) :
    names ≠ [".."] := by
  rintro rfl
  have hlast := getLast_of_locateFrom_outside (show Coherent top [] top from rfl) h
  have hhead : path.resolved.names.head? = some ".." := by
    rw [resolved_names, List.head?_reverse]
    exact hlast
  rw [Path.leadsOutside, Bool.or_eq_false_iff] at hinside
  exact of_decide_eq_false hinside.2 hhead

/-- A path stays inside if a name is taken off its end. -/
theorem parent_inside {path : Path} {name : String} (hlast : path.names.getLast? = some name)
    (hname : name ≠ "..") (hinside : path.leadsOutside = false) :
    path.parent.leadsOutside = false := by
  rw [Path.leadsOutside, Bool.or_eq_false_iff] at hinside ⊢
  refine ⟨hinside.1, decide_eq_false fun hhead => of_decide_eq_false hinside.2 ?_⟩
  have hsplit : path.names = path.parent.names ++ [name] := by
    obtain ⟨names, hnames⟩ := List.getLast?_eq_some_iff.mp hlast
    rw [Path.parent, hnames, List.dropLast_concat]
  rw [resolved_names, List.head?_reverse] at hhead ⊢
  rw [hsplit, List.foldl_append, List.foldl_cons, List.foldl_nil, takeName_down hname]
  cases htaken : path.parent.names.foldl takeName [] with
  | nil => rw [htaken] at hhead; contradiction
  | cons last rest =>
      rw [htaken] at hhead
      rw [List.getLast?_cons_cons]
      exact hhead

/-! ## Reading what was written -/

/-- A text without the null character is that of a path, if it is not too long. -/
theorem textFault_eq_none {text : String} (hnull : Char.ofNat 0 ∉ text.toList)
    (hsize : text.utf8ByteSize ≤ pathLimit) : textFault? text = none := by
  rw [textFault?, String.contains_char_eq]
  simp [hnull, not_lt.mpr hsize]

theorem locate_inside {top : Entry} {path : Path} (htext : textFault? path.text = none)
    (hinside : path.leadsOutside = false) : top.locate path = locateFrom [] top path.names := by
  rw [Path.leadsOutside, Bool.or_eq_false_iff] at hinside
  simp [locate, htext, hinside.1]

theorem locateFrom_of_locate {top : Entry} {path : Path} {place : List String × Entry}
    (hinside : path.leadsOutside = false) (h : top.locate path = .ok place) :
    locateFrom [] top path.names = .ok place := by
  rw [Path.leadsOutside, Bool.or_eq_false_iff] at hinside
  rw [locate] at h
  split at h
  · contradiction
  · simpa [hinside.1] using h

/-- A way that ends with a double dot ends at a directory. -/
theorem isDirectory_of_locateFrom_up {top : Entry} {rest names : List String} {last : Entry}
    {above : List (String × Entry)} {here : Entry} (hcoherent : Coherent top above here)
    (h : locateFrom above here (rest ++ [".."]) = .ok (names, last)) : last.isDirectory = true := by
  induction rest generalizing above here with
  | nil =>
      obtain ⟨-, ⟨-, -, houtside⟩ | ⟨-, step, above, rfl, hup⟩ | ⟨hname, -⟩⟩ := locateFrom_cons h
      · obtain ⟨-, rfl⟩ := Prod.mk.inj (locateOutside_ok houtside)
        rfl
      · obtain ⟨-, rfl⟩ := Prod.mk.inj (Except.ok.inj hup)
        exact hcoherent.2.1
      · exact absurd rfl hname
  | cons name rest ih =>
      obtain ⟨hhere, ⟨-, -, houtside⟩ | ⟨-, step, above, rfl, hup⟩ |
        ⟨hname, -, entry, hlookup, hdown⟩⟩ := locateFrom_cons h
      · obtain ⟨-, rfl⟩ := Prod.mk.inj (locateOutside_ok houtside)
        rfl
      · exact ih hcoherent.2.2.2 hup
      · have hnext : Coherent top ((name, here) :: above) entry :=
          ⟨hname, hhere, hlookup, hcoherent⟩
        exact ih hnext hdown

theorem locate_of_map {top : Entry} {path : Path} {names : List String} {found : Option Entry}
    (h : (top.locate path).map (fun (names, entry) => (names, some entry)) = .ok (names, found)) :
    ∃ entry, found = some entry ∧ top.locate path = .ok (names, entry) := by
  cases hlocate : top.locate path with
  | error fault => rw [hlocate] at h; contradiction
  | ok place =>
      rw [hlocate] at h
      obtain ⟨rfl, rfl⟩ := Prod.mk.inj (Except.ok.inj h)
      exact ⟨place.2, rfl, rfl⟩

/-- Where a new entry would be: at the path itself if that names nothing new, and
otherwise in the directory above. -/
theorem place_cases {top : Entry} {path : Path} {names : List String} {found : Option Entry}
    (hinside : path.leadsOutside = false) (h : top.place path = .ok (names, found)) :
    textFault? path.text = none ∧
      ((∃ entry, found = some entry ∧ locateFrom [] top path.names = .ok (names, entry) ∧
          (path.names = [] ∨ path.names = path.parent.names ++ [".."])) ∨
        ∃ name taken entries, path.names = path.parent.names ++ [name] ∧ name ≠ ".." ∧
          isTooLong name = false ∧ path.parent.leadsOutside = false ∧
          locateFrom [] top path.parent.names = .ok (taken, directory entries) ∧
          names = taken ++ [name] ∧ found = lookup name entries) := by
  rw [place] at h
  cases htext : textFault? path.text with
  | some fault => rw [htext] at h; contradiction
  | none =>
      refine ⟨rfl, ?_⟩
      rw [htext] at h
      cases hlast : path.names.getLast? with
      | none =>
          simp only [hlast] at h
          obtain ⟨entry, rfl, hlocate⟩ := locate_of_map h
          exact .inl ⟨entry, rfl, locateFrom_of_locate hinside hlocate,
            .inl (List.getLast?_eq_none_iff.mp hlast)⟩
      | some name =>
          have hsplit : path.names = path.parent.names ++ [name] := by
            obtain ⟨names, hnames⟩ := List.getLast?_eq_some_iff.mp hlast
            rw [Path.parent, hnames, List.dropLast_concat]
          by_cases hname : name = ".."
          · subst hname
            simp only [hlast, beq_self_eq_true, if_true] at h
            obtain ⟨entry, rfl, hlocate⟩ := locate_of_map h
            exact .inl ⟨entry, rfl, locateFrom_of_locate hinside hlocate, .inr hsplit⟩
          · have hparent := parent_inside hlast hname hinside
            have hfalse : (name == "..") = false := by simpa using hname
            simp only [hlast, hfalse, hinside, Bool.and_false, Bool.false_eq_true, if_false] at h
            split at h
            · contradiction
            · contradiction
            · rename_i taken entries hlocate
              split_ifs at h with hlong
              obtain ⟨rfl, rfl⟩ := Prod.mk.inj (Except.ok.inj h)
              exact .inr ⟨name, taken, entries, hsplit, hname, by simpa using hlong, hparent,
                locateFrom_of_locate hparent hlocate, rfl, rfl⟩

/-- What is put where no directory is, at a path inside a tree, is found at the path. -/
theorem locate_put {top entry : Entry} {path : Path} {names : List String} {found : Option Entry}
    (hinside : path.leadsOutside = false) (hplace : top.place path = .ok (names, found))
    (hfree : ∀ there, found = some there → there.isDirectory = false) :
    ∃ names', (top.put entry names).locate path = .ok (names', entry) := by
  obtain ⟨htext, ⟨there, rfl, hlocate, hempty | hup⟩ | ⟨name, taken, entries, hsplit, hname,
    hlong, hparent, hlocate, rfl, rfl⟩⟩ := place_cases hinside hplace
  · -- The tree is a file itself, which the path of no names replaces.
    rw [hempty] at hlocate
    obtain ⟨rfl, rfl⟩ := Prod.mk.inj (Except.ok.inj hlocate)
    exact ⟨[], by rw [locate_inside htext hinside, hempty]; rfl⟩
  · rw [hup] at hlocate
    have hdirectory := isDirectory_of_locateFrom_up (show Coherent top [] top from rfl) hlocate
    rw [hfree there rfl] at hdirectory
    contradiction
  · have hroot : Coherent top [] top := rfl
    have hnames := names_ne_of_inside hparent hlocate
    -- Gone in the old tree, the way shows where the directory is that gets the entry.
    obtain ⟨above, here, hcoherent, rfl, -, htail⟩ := locateFrom_transfer
      (fun _ found hfound hdir => ⟨found, hfound, hdir⟩) rfl hnames hroot hroot rfl hlocate
    obtain rfl : here = directory entries := by
      have hend := htail []
      rw [List.append_nil, hlocate] at hend
      exact (Prod.mk.inj (Except.ok.inj hend)).2.symm
    have htarget : ".." ∉ (above.map (·.1)).reverse ++ [name] := by
      simpa [hname.symm] using hcoherent.names
    have hfree' : ∀ there, top.follow ((above.map (·.1)).reverse ++ [name]) = some there →
        there.isDirectory = false := by
      intro there hthere
      rw [follow_append, hcoherent.follow_eq] at hthere
      exact hfree there (follow_singleton.mp hthere)
    -- Gone in the new tree, it ends at a directory that has the entry.
    obtain ⟨above', here', hcoherent', hsame, hhere', htail'⟩ := locateFrom_transfer
      (fun _ _ hfound hdir => follow_put_directory htarget hfree' hfound hdir)
      rfl hnames hroot (show Coherent (top.put entry _) [] _ from rfl) rfl hlocate
    have hput := follow_put_self top entry htarget
    have hplaced := hcoherent'.follow_eq
    rw [hsame] at hplaced
    rw [follow_append, hplaced] at hput
    have hlookup := follow_singleton.mp hput
    have hend := htail' [name]
    rw [← hsplit, locateFrom_down above' hhere' hname hlong hlookup, locateFrom] at hend
    exact ⟨_, by rw [locate_inside htext hinside, hend]⟩

/-- The bytes that were written at a path inside a tree are read there. -/
theorem read_write {top top' : Entry} {path : Path} {bytes : ByteArray}
    (hinside : path.leadsOutside = false) (h : top.write path bytes = .ok top') :
    top'.read path = .ok bytes := by
  rw [write] at h
  split at h
  · contradiction
  · contradiction
  · rename_i names found hfound hplace
    obtain rfl := Except.ok.inj h
    obtain ⟨names', hlocate⟩ := locate_put hinside hplace fun there hthere => by
      cases there with
      | file bytes => rfl
      | directory entries => exact absurd hthere (hfound entries)
    rw [read, hlocate]

theorem hasDirectory_of_ensureDirectory {top top' : Entry} {path : Path}
    (hinside : path.leadsOutside = false) (h : top.ensureDirectory path = .ok top') :
    top'.hasDirectory path = true := by
  rw [ensureDirectory] at h
  cases hmade : top.makeDirectory path with
  | error fault =>
      rw [hmade] at h
      simp only at h
      split_ifs at h with hthere
      obtain rfl := Except.ok.inj h
      exact hthere
  | ok made =>
      rw [hmade] at h
      obtain rfl := Except.ok.inj h
      rw [makeDirectory] at hmade
      split at hmade
      · contradiction
      · contradiction
      · rename_i names hplace
        obtain rfl := Except.ok.inj hmade
        obtain ⟨names', hlocate⟩ := locate_put hinside hplace nofun
        rw [hasDirectory, at?, hlocate]

theorem exists_of_ensureDirectories {top top' : Entry} {path : Path} {fuel : Nat}
    (h : top.ensureDirectories path fuel = .ok top') :
    ∃ top₁ : Entry, top₁.ensureDirectory path = .ok top' := by
  have hmap : ∀ {top₁ : Entry}, (top₁.ensureDirectory path).mapError (AccessFailure.mk · path) =
      .ok top' → top₁.ensureDirectory path = .ok top' := by
    intro top₁ h
    cases hensured : top₁.ensureDirectory path with
    | error fault => rw [hensured] at h; contradiction
    | ok made => rw [hensured] at h; exact congrArg _ (Except.ok.inj h)
  cases fuel with
  | zero => exact ⟨top, hmap h⟩
  | succ fuel =>
      rw [ensureDirectories] at h
      split at h
      · -- The directories above it were made first.
        cases habove : top.ensureDirectories path.parent fuel with
        | error failure => rw [habove] at h; contradiction
        | ok top₁ =>
            rw [habove] at h
            exact ⟨top₁, hmap h⟩
      · contradiction
      · rename_i made hensured
        exact ⟨top, hensured.trans (congrArg _ (Except.ok.inj h))⟩

/-- A directory that was made at a path inside a tree, with all those above it, is there. -/
theorem hasDirectory_of_makeDirectories {top top' : Entry} {path : Path}
    (hinside : path.leadsOutside = false) (h : top.makeDirectories path = .ok top') :
    top'.hasDirectory path = true := by
  obtain ⟨top₁, hensured⟩ := exists_of_ensureDirectories h
  exact hasDirectory_of_ensureDirectory hinside hensured

/-! ## A new file in a directory -/

@[simp] theorem parent_child (directory : Path) (name : String) :
    (directory.child name).parent = directory := by
  rw [Path.child, Path.parent, List.dropLast_concat]

/-- A path stays inside if a name is put to its end. -/
theorem child_inside {path : Path} {name : String} (hname : name ≠ "..")
    (hinside : path.leadsOutside = false) : (path.child name).leadsOutside = false := by
  rw [Path.leadsOutside, Bool.or_eq_false_iff] at hinside ⊢
  refine ⟨hinside.1, decide_eq_false fun hhead => of_decide_eq_false hinside.2 ?_⟩
  rw [resolved_names, List.head?_reverse] at hhead ⊢
  rw [show (path.child name).names = path.names ++ [name] from rfl, List.foldl_append,
    List.foldl_cons, List.foldl_nil, takeName_down hname] at hhead
  cases htaken : path.names.foldl takeName [] with
  | nil =>
      rw [htaken] at hhead
      exact absurd (Option.some.inj hhead) hname
  | cons last rest =>
      rw [htaken, List.getLast?_cons_cons] at hhead
      exact hhead

theorem locate_of_hasDirectory {top : Entry} {path : Path} (h : top.hasDirectory path = true) :
    ∃ names entries, top.locate path = .ok (names, directory entries) := by
  rw [hasDirectory, at?] at h
  cases hlocate : top.locate path with
  | error fault => rw [hlocate] at h; contradiction
  | ok place =>
      obtain ⟨names, entry⟩ := place
      rw [hlocate] at h
      cases entry with
      | file bytes => contradiction
      | directory entries => exact ⟨names, entries, rfl⟩

/-- What there is with a name in a directory inside a tree. -/
theorem hasDirectory_child {top : Entry} {path : Path} {name : String} {names : List String}
    {entries : List (String × Entry)} (hinside : path.leadsOutside = false) (hname : name ≠ "..")
    (hlocate : top.locate path = .ok (names, directory entries))
    (htext : textFault? (path.child name).text = none) (hlong : isTooLong name = false) :
    top.hasDirectory (path.child name) = (lookup name entries).any isDirectory := by
  have hroot : Coherent top [] top := rfl
  have hfrom := locateFrom_of_locate hinside hlocate
  obtain ⟨above, here, hcoherent, rfl, hhere, htail⟩ := locateFrom_transfer
    (fun _ found hfound hdir => ⟨found, hfound, hdir⟩) rfl (names_ne_of_inside hinside hfrom) hroot
    hroot rfl hfrom
  obtain rfl : here = directory entries := by
    have hend := htail []
    rw [List.append_nil, hfrom] at hend
    exact (Prod.mk.inj (Except.ok.inj hend)).2.symm
  have hchild : top.locate (path.child name) = locateFrom above (directory entries) [name] := by
    rw [locate_inside htext (child_inside hname hinside)]
    exact htail [name]
  rw [hasDirectory, at?, hchild]
  cases hlookup : lookup name entries with
  | none =>
      have hfalse : (name == "..") = false := by simpa using hname
      simp [locateFrom, hfalse, hlong, hlookup]
  | some entry =>
      rw [locateFrom_down above hhere hname hlong hlookup, locateFrom]
      cases entry with
      | file bytes => rfl
      | directory entries => rfl

/-- A file can be written in a directory inside a tree if its path can be followed, its name is
not too long, and there is no directory of that name. -/
theorem exists_write_child_iff {top : Entry} {path : Path} {name : String} (bytes : ByteArray)
    (hinside : path.leadsOutside = false) (hname : name ≠ "..")
    (hthere : top.hasDirectory path = true) :
    (∃ top', top.write (path.child name) bytes = .ok top') ↔
      textFault? (path.child name).text = none ∧ isTooLong name = false ∧
        top.hasDirectory (path.child name) = false := by
  obtain ⟨names, entries, hlocate⟩ := locate_of_hasDirectory hthere
  have hlast : (path.child name).names.getLast? = some name := List.getLast?_concat
  have hfalse : (name == "..") = false := by simpa using hname
  cases htext : textFault? (path.child name).text with
  | some fault =>
      have hplace : top.place (path.child name) = .error fault := by
        rw [place, htext]
      simp [write, hplace]
  | none =>
      cases hlong : isTooLong name with
      | true =>
          have hplace : top.place (path.child name) = .error .tooLong := by
            rw [place, htext, hlast, parent_child]
            simp [hfalse, hlocate, hlong]
          simp [write, hplace]
      | false =>
          have hplace : top.place (path.child name) = .ok (names ++ [name], lookup name entries) := by
            rw [place, htext, hlast, parent_child]
            simp [hfalse, hlocate, hlong]
          rw [hasDirectory_child hinside hname hlocate htext hlong, write, hplace]
          cases lookup name entries with
          | none => simp
          | some entry =>
              cases entry with
              | file bytes => simp [isDirectory]
              | directory entries => simp [isDirectory]

/-- The working directory is there. -/
@[simp] theorem makeDirectories_here (entries : List (String × Entry)) :
    (directory entries).makeDirectories ⟨"", []⟩ = .ok (directory entries) := by
  have htext : textFault? (Path.text ⟨"", []⟩) = none := textFault_eq_none (by decide) (by decide)
  have hlocate : (directory entries).locate ⟨"", []⟩ = .ok ([], directory entries) := by
    rw [locate_inside htext (by decide)]
    rfl
  have hplace : (directory entries).place ⟨"", []⟩ = .ok ([], some (directory entries)) := by
    rw [place, htext]
    simp only [List.getLast?_nil, hlocate]
    rfl
  have hthere : (directory entries).hasDirectory ⟨"", []⟩ = true := by
    rw [hasDirectory, at?, hlocate]
  show (ensureDirectory _ _).mapError _ = _
  rw [ensureDirectory, makeDirectory, hplace]
  simp only [hthere, if_true]
  rfl

end Entry

end SourceChunks
