import Mathlib
import SourceChunks.Proofs.Json.Leaf

/-!
# Written values are read back

A value that is written in either layout is read back as it was, as long as its
whole numbers stay within the limit of digits; otherwise the first number that does
not is the fault that the reader reports.

* `Regular`: what can be written at all: no numbers with a fraction, distinct names
  within an object, and no more nesting than there is room for.
* `longCount?`: the number of digits of the first whole number that is too long.
* `reads_of_fuel`: reading what was written in front of a text gives the value and
  that text, or the fault of the first number that is too long.
* `parse_print` and `parse_print_long`: the same for a whole text.
-/

namespace SourceChunks.Json

mutual

/-- A value that can be written and read where `room` more arrays and objects can be
nested: it has no number with a fraction, and no two members of one name. -/
def Regular : (room : Nat) → Json → Prop
  | _, null => True
  | _, bool _ => True
  | _, int _ => True
  | _, real _ => False
  | _, str _ => True
  | room, arr items => 0 < room ∧ RegularItems (room - 1) items
  | room, obj members =>
      0 < room ∧ (members.map (·.1)).Nodup ∧ RegularMembers (room - 1) members

/-- Items that can be written and read. -/
def RegularItems : (room : Nat) → List Json → Prop
  | _, [] => True
  | room, item :: items => Regular room item ∧ RegularItems room items

/-- Members whose values can be written and read. -/
def RegularMembers : (room : Nat) → List (String × Json) → Prop
  | _, [] => True
  | room, (_, value) :: members => Regular room value ∧ RegularMembers room members

end

mutual

/-- The number of digits of the first whole number in a value that has more of them
than can be read. -/
def longCount? : Json → Option Nat
  | int value =>
      if (Nat.toDigits 10 value.natAbs).length > Numeral.digitLimit then
        some (Nat.toDigits 10 value.natAbs).length
      else none
  | arr items => longItem? items
  | obj members => longMember? members
  | _ => none

/-- The same for the first of some items that holds such a number. -/
def longItem? : List Json → Option Nat
  | [] => none
  | item :: items => (longCount? item).or (longItem? items)

/-- The same for the first of some members that holds such a number. -/
def longMember? : List (String × Json) → Option Nat
  | [] => none
  | (_, value) :: members => (longCount? value).or (longMember? members)

end

/-- What comes of reading a written value: the value and the text behind it, or the
fault of its first number that is too long. -/
def ReadsBack (long : Option Nat) (value : Json) (rest : List Char) (step : Step Json) : Prop :=
  match long with
  | none => step = .ok (value, rest)
  | some count => ∃ place, step = .error (.tooManyDigits count, place)

/-! ## Where the reader stops -/

theorem endsNumber_break (layout : Layout) (depth : Nat) {c : Char} (rest : List Char)
    (hc : c.isDigit = false ∧ c ≠ '.' ∧ c ≠ 'e' ∧ c ≠ 'E') :
    EndsNumber (layout.break depth ++ c :: rest) := by
  cases layout with
  | line => exact endsNumber_cons rest hc
  | indented => exact endsNumber_cons _ (by decide)

theorem endsNumber_writeItems (layout : Layout) (depth : Nat) (items : List Json)
    {rest : List Char} (hrest : EndsNumber rest) :
    EndsNumber (writeItems layout depth items rest) := by
  cases items with
  | nil => exact hrest
  | cons item items => cases layout <;> exact endsNumber_cons _ (by decide)

theorem endsNumber_writeMembers (layout : Layout) (depth : Nat) (members : List (String × Json))
    {rest : List Char} (hrest : EndsNumber rest) :
    EndsNumber (writeMembers layout depth members rest) := by
  cases members with
  | nil => exact hrest
  | cons member members => cases layout <;> exact endsNumber_cons _ (by decide)

/-- What stands before an item is white space. -/
@[simp] theorem skipSpace_break (layout : Layout) (depth : Nat) (rest : List Char) :
    skipSpace (layout.break depth ++ rest) = skipSpace rest := by
  cases layout with
  | line => rfl
  | indented =>
      have hspaces : ∀ n, skipSpace (List.replicate n ' ' ++ rest) = skipSpace rest := by
        intro n
        induction n with
        | zero => rfl
        | succ n ih => simpa [List.replicate_succ, skipSpace, isSpace] using ih
      simpa [Layout.break, skipSpace, isSpace] using hspaces (2 * depth)

theorem skipSpace_cons {c : Char} (rest : List Char) (hc : isSpace c = false) :
    skipSpace (c :: rest) = c :: rest := by
  simp [skipSpace, hc]

/-- A comma between two items is followed by white space only. -/
theorem exists_comma (layout : Layout) (depth : Nat) (rest : List Char) :
    rest.length < (layout.comma ++ layout.break depth ++ rest).length ∧
      ∃ behind, skipSpace (layout.comma ++ layout.break depth ++ rest) = ',' :: behind ∧
        skipSpace behind = skipSpace rest := by
  cases layout with
  | line => exact ⟨by simp [Layout.comma, Layout.break], ' ' :: rest, rfl, rfl⟩
  | indented =>
      refine ⟨by simp [Layout.comma], Layout.indented.break depth ++ rest, rfl, ?_⟩
      exact skipSpace_break _ _ _

/-- A digit is neither white space nor a bracket, and a character of one byte. -/
theorem digit_head {c : Char} (hc : c.isDigit = true) :
    isSpace c = false ∧ c ≠ ']' ∧ c.toNat < 128 := by
  have hrange : 48 ≤ c.toNat ∧ c.toNat ≤ 57 := Char.isDigit_iff_toNat.mp hc
  refine ⟨?_, ?_, by omega⟩
  · by_contra hspace
    simp only [isSpace, Bool.not_eq_false, Bool.or_eq_true, beq_iff_eq] at hspace
    rcases hspace with ((rfl | rfl) | rfl) | rfl <;> simp at hc
  · rintro rfl
    simp at hc

/-- A written value begins with neither white space nor a closing bracket. -/
theorem exists_head_write (layout : Layout) (depth : Nat) {room : Nat} {value : Json}
    (hvalue : Regular room value) (rest : List Char) :
    ∃ c tail, write layout depth value rest = c :: tail ∧
      isSpace c = false ∧ c ≠ ']' ∧ c.toNat < 128 := by
  cases value with
  | null => exact ⟨_, _, rfl, by decide⟩
  | bool value => cases value <;> exact ⟨_, _, rfl, by decide⟩
  | int value =>
      obtain ⟨c, ds, hds⟩ :=
        List.exists_cons_of_ne_nil (Nat.toDigits_ne_nil (n := value.natAbs) (b := 10))
      have hc : c.isDigit = true :=
        Nat.isDigit_of_mem_toDigits (b := 10) (n := value.natAbs) (by decide) (by decide)
          (by rw [hds]; exact List.mem_cons_self)
      rw [write, toList_toString_int]
      by_cases hsign : value < 0
      · rw [if_pos hsign]
        exact ⟨_, _, rfl, by decide⟩
      · rw [if_neg hsign, hds]
        exact ⟨c, _, rfl, digit_head hc⟩
  | real value => exact absurd hvalue id
  | str value => exact ⟨_, _, rfl, by decide⟩
  | arr items => cases items <;> exact ⟨_, _, rfl, by decide⟩
  | obj members => rcases members with _ | ⟨⟨name, value⟩, members⟩ <;> exact ⟨_, _, rfl, by decide⟩

theorem skipSpace_write (layout : Layout) (depth : Nat) {room : Nat} {value : Json}
    (hvalue : Regular room value) (rest : List Char) :
    skipSpace (write layout depth value rest) = write layout depth value rest := by
  obtain ⟨c, tail, htext, hspace, -, -⟩ := exists_head_write layout depth hvalue rest
  rw [htext, skipSpace_cons tail hspace]

/-! ## Lengths -/

mutual

theorem length_write (layout : Layout) : (depth : Nat) → (value : Json) → (rest : List Char) →
    rest.length ≤ (write layout depth value rest).length
  | _, null, rest => by
      rw [write, List.length_append]
      omega
  | _, bool _, rest => by simp [write]
  | _, int _, rest => by simp [write]
  | _, real _, rest => by simp [write]
  | _, str s, rest => by
      have := length_writeString s rest
      simp only [write]
      omega
  | _, arr [], rest => by
      simp only [write, List.length_cons]
      omega
  | depth, arr (item :: items), rest => by
      have hitems := length_writeItems layout (depth + 1) items (layout.break depth ++ ']' :: rest)
      have hitem := length_write layout (depth + 1) item
        (writeItems layout (depth + 1) items (layout.break depth ++ ']' :: rest))
      simp only [write, List.length_cons, List.length_append, List.cons_append] at hitems hitem ⊢
      omega
  | _, obj [], rest => by
      simp only [write, List.length_cons]
      omega
  | depth, obj ((name, value) :: members), rest => by
      have hmembers := length_writeMembers layout (depth + 1) members
        (layout.break depth ++ '}' :: rest)
      have hvalue := length_write layout (depth + 1) value
        (writeMembers layout (depth + 1) members (layout.break depth ++ '}' :: rest))
      have hname := length_writeString name (':' :: ' ' ::
        write layout (depth + 1) value (writeMembers layout (depth + 1) members
          (layout.break depth ++ '}' :: rest)))
      simp only [write, List.length_cons, List.length_append, List.cons_append] at *
      omega

theorem length_writeItems (layout : Layout) : (depth : Nat) → (items : List Json) →
    (rest : List Char) → rest.length ≤ (writeItems layout depth items rest).length
  | _, [], rest => by simp [writeItems]
  | depth, item :: items, rest => by
      have hitems := length_writeItems layout depth items rest
      have hitem := length_write layout depth item (writeItems layout depth items rest)
      simp only [writeItems, List.length_append]
      omega

theorem length_writeMembers (layout : Layout) : (depth : Nat) →
    (members : List (String × Json)) → (rest : List Char) →
    rest.length ≤ (writeMembers layout depth members rest).length
  | _, [], rest => by simp [writeMembers]
  | depth, (name, value) :: members, rest => by
      have hmembers := length_writeMembers layout depth members rest
      have hvalue := length_write layout depth value (writeMembers layout depth members rest)
      have hname := length_writeString name
        (':' :: ' ' :: write layout depth value (writeMembers layout depth members rest))
      simp only [writeMembers, List.length_append, List.length_cons] at *
      omega

end

/-! ## Reading back -/

/-- Behind a value that was read, the reader goes on with the text behind it; behind one
that holds a number that is too long, it stops with that fault. -/
theorem ReadsBack.bind {long more : Option Nat} {value result : Json} {rest after : List Char}
    {step : Step Json} {next : Json × List Char → Step Json}
    (hstep : ReadsBack long value rest step)
    (hnext : ReadsBack more result after (next (value, rest))) :
    ReadsBack (long.or more) result after (step.bind next) := by
  cases long with
  | none =>
      have hok : step = .ok (value, rest) := hstep
      rw [hok]
      exact hnext
  | some count =>
      obtain ⟨place, herror⟩ := hstep
      rw [herror]
      exact ⟨place, rfl⟩

/-- One round of the reader of items. -/
theorem readItems_succ (fuel room : Nat) (done : List Json) (s : List Char) :
    readItems (fuel + 1) room done s =
      (readValue fuel room s).bind fun found =>
        match skipSpace found.2 with
        | ']' :: rest => .ok (arr (found.1 :: done).reverse, rest)
        | ',' :: rest => readItems fuel room (found.1 :: done) (skipSpace rest)
        | rest => .error (.comma, rest) := by
  rw [readItems]
  cases readValue fuel room s <;> rfl

/-- One round of the reader of members, behind a name. -/
theorem readMembers_succ {fuel room : Nat} {done : List (String × Json)} {name : String}
    {behind : List Char}
    (hfuel : (writeString name (':' :: ' ' :: behind)).length ≤ fuel) :
    readMembers (fuel + 1) room done (writeString name (':' :: ' ' :: behind)) =
      (readValue fuel room (skipSpace behind)).bind fun found =>
        match skipSpace found.2 with
        | '}' :: rest => .ok (obj (setMember name found.1 done), rest)
        | ',' :: rest => readMembers fuel room (setMember name found.1 done) (skipSpace rest)
        | rest => .error (.comma, rest) := by
  obtain ⟨body, htext, hname⟩ := readString_writeString
    (writeString name (':' :: ' ' :: behind)) name fuel (':' :: ' ' :: behind) hfuel
  rw [htext] at hname ⊢
  have hcolon : skipSpace (':' :: ' ' :: behind) = ':' :: ' ' :: behind := rfl
  have hblank : skipSpace (' ' :: behind) = skipSpace behind := rfl
  simp only [readMembers, hname, hcolon, hblank]
  cases readValue fuel room (skipSpace behind) <;> rfl

/-- A member with a new name goes to the end. -/
theorem setMember_of_notMem {name : String} (value : Json) {members : List (String × Json)}
    (hname : name ∉ members.map (·.1)) :
    setMember name value members = members ++ [(name, value)] := by
  induction members with
  | nil => rfl
  | cons member members ih =>
      obtain ⟨other, old⟩ := member
      simp only [List.map_cons, List.mem_cons, not_or] at hname
      have hother : (other == name) = false := by simpa using Ne.symm hname.1
      simp only [setMember, hother, Bool.false_eq_true, if_false, ih hname.2, List.cons_append]

/-- With some fuel, every value whose written form is short enough for it is read back
from in front of a text that does not go on with a number. -/
def ReadsValues (layout : Layout) (fuel : Nat) : Prop :=
  ∀ (value : Json) (depth room : Nat) (rest : List Char), Regular room value → EndsNumber rest →
    2 * (write layout depth value rest).length < fuel →
    ReadsBack (longCount? value) value rest
      (readValue fuel room (write layout depth value rest))

/-- The same for the items of an array, behind those that were read before. -/
def ReadsItems (layout : Layout) (fuel : Nat) : Prop :=
  ∀ (item : Json) (items : List Json) (depth outer room : Nat) (done : List Json)
    (rest : List Char), Regular room item → RegularItems room items →
    2 * (write layout depth item (writeItems layout depth items
      (layout.break outer ++ ']' :: rest))).length + 1 < fuel →
    ReadsBack (longItem? (item :: items)) (arr (done.reverse ++ item :: items)) rest
      (readItems fuel room done (write layout depth item (writeItems layout depth items
        (layout.break outer ++ ']' :: rest))))

/-- The same for the members of an object, whose names are new. -/
def ReadsMembers (layout : Layout) (fuel : Nat) : Prop :=
  ∀ (name : String) (value : Json) (members : List (String × Json)) (depth outer room : Nat)
    (done : List (String × Json)) (rest : List Char), Regular room value →
    RegularMembers room members → (done.map (·.1) ++ name :: members.map (·.1)).Nodup →
    2 * (writeString name (':' :: ' ' :: write layout depth value
      (writeMembers layout depth members (layout.break outer ++ '}' :: rest)))).length + 1 < fuel →
    ReadsBack (longMember? ((name, value) :: members)) (obj (done ++ (name, value) :: members)) rest
      (readMembers fuel room done (writeString name (':' :: ' ' :: write layout depth value
        (writeMembers layout depth members (layout.break outer ++ '}' :: rest)))))

/-- A value that is no string, array or object is read as a word or number. -/
theorem readValue_int (fuel room : Nat) (value : Int) (rest : List Char) :
    readValue (fuel + 1) room ((toString value).toList ++ rest) =
      readScalar ((toString value).toList ++ rest) := by
  have hhead : ∀ c tail, (toString value).toList ++ rest = c :: tail →
      c ≠ '"' ∧ c ≠ '[' ∧ c ≠ '{' := by
    intro c tail htext
    obtain ⟨d, ds, hds⟩ :=
      List.exists_cons_of_ne_nil (Nat.toDigits_ne_nil (n := value.natAbs) (b := 10))
    have hd : d.isDigit = true :=
      Nat.isDigit_of_mem_toDigits (b := 10) (n := value.natAbs) (by decide) (by decide)
        (by rw [hds]; exact List.mem_cons_self)
    rw [toList_toString_int, hds] at htext
    split_ifs at htext with hsign
    · obtain rfl := (List.cons.inj htext).1
      decide
    · obtain rfl := (List.cons.inj htext).1
      refine ⟨?_, ?_, ?_⟩ <;> (rintro rfl; simp at hd)
  rw [readValue]
  · rintro tail htext
    exact (hhead _ _ htext).1 rfl
  · rintro tail htext
    exact (hhead _ _ htext).2.1 rfl
  · rintro tail htext
    exact (hhead _ _ htext).2.2 rfl

theorem readsValues_succ {layout : Layout} {fuel : Nat} (hitems : ReadsItems layout fuel)
    (hmembers : ReadsMembers layout fuel) : ReadsValues layout (fuel + 1) := by
  intro value depth room rest hvalue hrest hfuel
  match value with
  | null => rfl
  | bool true => rfl
  | bool false => rfl
  | real _ => exact absurd hvalue id
  | int value =>
      rw [write, readValue_int, readScalar_int value hrest, longCount?]
      split_ifs with hlong
      · exact ⟨_, rfl⟩
      · rfl
  | str s =>
      obtain ⟨body, htext, hbody⟩ := readString_writeString (writeString s rest) s fuel rest
        (by simp only [write] at hfuel; omega)
      show readValue (fuel + 1) room (writeString s rest) = .ok (str s, rest)
      rw [htext] at hbody ⊢
      rw [readValue, hbody]
  | arr [] =>
      have hroom : room ≠ 0 := Nat.pos_iff_ne_zero.mp hvalue.1
      show readValue (fuel + 1) room ('[' :: ']' :: rest) = .ok (arr [], rest)
      rw [readValue, if_neg hroom]
      rfl
  | arr (item :: items) =>
      obtain ⟨hroom, hitem, hrest⟩ := hvalue
      obtain ⟨c, tail, htext, hspace, hbracket, -⟩ := exists_head_write layout (depth + 1) hitem
        (writeItems layout (depth + 1) items (layout.break depth ++ ']' :: rest))
      have hstep : readValue (fuel + 1) room (write layout depth (arr (item :: items)) rest) =
          readItems fuel (room - 1) [] (write layout (depth + 1) item
            (writeItems layout (depth + 1) items (layout.break depth ++ ']' :: rest))) := by
        rw [write, List.cons_append, readValue, if_neg (by omega), skipSpace_break, htext,
          skipSpace_cons tail hspace]
        split
        · rename_i behind hcontra
          exact absurd (List.cons.inj hcontra).1 hbracket
        · rfl
      rw [hstep]
      refine hitems item items (depth + 1) depth (room - 1) [] rest hitem hrest ?_
      simp only [write, List.length_cons, List.length_append, List.cons_append] at hfuel
      omega
  | obj [] =>
      have hroom : room ≠ 0 := Nat.pos_iff_ne_zero.mp hvalue.1
      show readValue (fuel + 1) room ('{' :: '}' :: rest) = .ok (obj [], rest)
      rw [readValue, if_neg hroom]
      rfl
  | obj ((name, value) :: members) =>
      obtain ⟨hroom, hnames, hvalue, hrest⟩ := hvalue
      have hstep : readValue (fuel + 1) room
            (write layout depth (obj ((name, value) :: members)) rest) =
          readMembers fuel (room - 1) [] (writeString name (':' :: ' ' ::
            write layout (depth + 1) value (writeMembers layout (depth + 1) members
              (layout.break depth ++ '}' :: rest)))) := by
        rw [write, List.cons_append, readValue, if_neg (by omega), skipSpace_break]
        rfl
      rw [hstep]
      refine hmembers name value members (depth + 1) depth (room - 1) [] rest hvalue hrest hnames ?_
      simp only [write, List.length_cons, List.length_append, List.cons_append] at hfuel
      omega

theorem readsItems_succ {layout : Layout} {fuel : Nat} (hvalues : ReadsValues layout fuel)
    (hmore : ReadsItems layout fuel) : ReadsItems layout (fuel + 1) := by
  intro item items depth outer room done rest hitem hitems hfuel
  have hclose : EndsNumber (layout.break outer ++ ']' :: rest) :=
    endsNumber_break layout outer rest (by decide)
  rw [readItems_succ]
  -- The item in front is read by the reader of values, which leaves the other items.
  refine (hvalues item depth room _ hitem (endsNumber_writeItems layout depth items hclose)
    (by omega)).bind ?_
  have hlength := length_write layout depth item
    (writeItems layout depth items (layout.break outer ++ ']' :: rest))
  cases items with
  | nil =>
      have hskip : skipSpace (layout.break outer ++ ']' :: rest) = ']' :: rest :=
        (skipSpace_break layout outer _).trans (skipSpace_cons rest (by decide))
      simp only [writeItems, hskip, longItem?]
      simp [ReadsBack]
  | cons next items =>
      obtain ⟨hshort, behind, hcomma, hskip⟩ := exists_comma layout depth
        (write layout depth next (writeItems layout depth items (layout.break outer ++ ']' :: rest)))
      have hread := hmore next items depth outer room (item :: done) rest hitems.1 hitems.2 (by
        simp only [writeItems] at hlength hfuel
        omega)
      rw [skipSpace_write layout depth hitems.1] at hskip
      simp only [writeItems, hcomma, hskip]
      simpa using hread

theorem readsMembers_succ {layout : Layout} {fuel : Nat} (hvalues : ReadsValues layout fuel)
    (hmore : ReadsMembers layout fuel) : ReadsMembers layout (fuel + 1) := by
  intro name value members depth outer room done rest hvalue hmembers hnames hfuel
  have hclose : EndsNumber (layout.break outer ++ '}' :: rest) :=
    endsNumber_break layout outer rest (by decide)
  have hstring := length_writeString name (':' :: ' ' :: write layout depth value
    (writeMembers layout depth members (layout.break outer ++ '}' :: rest)))
  have hlength := length_write layout depth value
    (writeMembers layout depth members (layout.break outer ++ '}' :: rest))
  simp only [List.length_cons] at hstring
  rw [readMembers_succ (by omega), skipSpace_write layout depth hvalue]
  -- Its value is read by the reader of values, which leaves the other members.
  refine (hvalues value depth room _ hvalue (endsNumber_writeMembers layout depth members hclose)
    (by omega)).bind ?_
  -- No name comes twice, so that the member goes to the end.
  have hnew : name ∉ done.map (·.1) := by
    intro hmem
    exact (List.nodup_append.mp hnames).2.2 name hmem name List.mem_cons_self rfl
  cases members with
  | nil =>
      have hskip : skipSpace (layout.break outer ++ '}' :: rest) = '}' :: rest :=
        (skipSpace_break layout outer _).trans (skipSpace_cons rest (by decide))
      simp only [writeMembers, hskip, longMember?, setMember_of_notMem value hnew]
      rfl
  | cons member members =>
      obtain ⟨other, next⟩ := member
      obtain ⟨hshort, behind, hcomma, hskip⟩ := exists_comma layout depth
        (writeString other (':' :: ' ' :: write layout depth next
          (writeMembers layout depth members (layout.break outer ++ '}' :: rest))))
      have hread := hmore other next members depth outer room (done ++ [(name, value)]) rest
        hmembers.1 hmembers.2 (by simpa using hnames) (by
          simp only [writeMembers] at hlength hstring hfuel
          omega)
      have hquote : ∀ tail, skipSpace (writeString other tail) = writeString other tail :=
        fun tail => rfl
      rw [hquote] at hskip
      simp only [writeMembers, hcomma, hskip, setMember_of_notMem value hnew]
      simpa using hread

/-- The three readers, by induction on the fuel that each of them passes on. -/
theorem reads_of_fuel (layout : Layout) (fuel : Nat) :
    ReadsValues layout fuel ∧ ReadsItems layout fuel ∧ ReadsMembers layout fuel := by
  induction fuel with
  | zero =>
      refine ⟨?_, ?_, ?_⟩
      · intro value depth room rest _ _ hfuel
        exact absurd hfuel (Nat.not_lt_zero _)
      · intro item items depth outer room done rest _ _ hfuel
        exact absurd hfuel (Nat.not_lt_zero _)
      · intro name value members depth outer room done rest _ _ _ hfuel
        exact absurd hfuel (Nat.not_lt_zero _)
  | succ fuel ih =>
      obtain ⟨hvalues, hitems, hmembers⟩ := ih
      exact ⟨readsValues_succ hitems hmembers, readsItems_succ hvalues hitems,
        readsMembers_succ hvalues hmembers⟩

/-! ## Whole texts -/

/-- A printed value is what its text is read as, unless one of its numbers is too long. -/
theorem readText_print (layout : Layout) {value : Json} (hvalue : Regular depthLimit value) :
    match longCount? value with
    | none => readText (value.print layout).toList = .ok value
    | some count => ∃ place, readText (value.print layout).toList =
        .error (.tooManyDigits count, place) := by
  have htext : (value.print layout).toList = write layout 0 value [] := by
    rw [print, String.toList_ofList]
  have hread := (reads_of_fuel layout (2 * (write layout 0 value []).length + 2)).1 value 0
    depthLimit [] hvalue endsNumber_nil (by omega)
  -- A written value does not begin with a byte order mark.
  have hmark : (write layout 0 value []).head? ≠ some (Char.ofNat 0xFEFF) := by
    obtain ⟨c, tail, hwritten, -, -, hc⟩ := exists_head_write layout 0 hvalue []
    rw [hwritten]
    rintro hcontra
    rw [Option.some.inj hcontra] at hc
    exact absurd hc (by decide)
  rw [htext, readText, if_neg hmark, skipSpace_write layout 0 hvalue]
  cases hlong : longCount? value with
  | none =>
      rw [hlong] at hread
      have hok : readValue _ _ _ = .ok (value, []) := hread
      rw [hok]
      rfl
  | some count =>
      rw [hlong] at hread
      obtain ⟨place, herror⟩ := hread
      rw [herror]
      exact ⟨place, rfl⟩

/-- A printed value whose numbers can all be read is the value of its text. -/
theorem parse_print (layout : Layout) {value : Json} (hvalue : Regular depthLimit value)
    (hshort : longCount? value = none) : parse (value.print layout).toList = .ok value := by
  have hread := readText_print layout hvalue
  rw [hshort] at hread
  rw [parse, hread]

/-- A printed value with a number that is too long is refused for that number. -/
theorem parse_print_long (layout : Layout) {value : Json} (hvalue : Regular depthLimit value)
    {count : Nat} (hlong : longCount? value = some count) :
    ∃ fault, parse (value.print layout).toList = .error fault ∧
      fault.cause = .tooManyDigits count := by
  have hread := readText_print layout hvalue
  rw [hlong] at hread
  obtain ⟨place, herror⟩ := hread
  rw [parse, herror]
  exact ⟨_, rfl, rfl⟩

/-! ## No carriage returns -/

theorem cr_notMem_escapeChar (c : Char) : '\r' ∉ escapeChar c := by
  unfold escapeChar
  split_ifs with hquote hback hnewline hreturn htab hbackspace hfeed hcontrol
  all_goals try decide
  · have hdigit : ∀ n < 16, Text.hexDigit n ≠ '\r' := by decide
    have hdigits : Text.hexDigits 4 c.toNat =
        [Text.hexDigit (c.toNat / 16 / 16 / 16 % 16), Text.hexDigit (c.toNat / 16 / 16 % 16),
          Text.hexDigit (c.toNat / 16 % 16), Text.hexDigit (c.toNat % 16)] := rfl
    have hmod : ∀ n, Text.hexDigit (n % 16) ≠ '\r' := fun n => hdigit _ (by omega)
    rw [hdigits]
    simp [Ne.symm (hmod _)]
  · simpa using Ne.symm hreturn

theorem cr_notMem_writeString (s : String) (rest : List Char) (hrest : '\r' ∉ rest) :
    '\r' ∉ writeString s rest := by
  have hescaped : ∀ cs : List Char,
      '\r' ∉ cs.foldr (fun c rest => escapeChar c ++ rest) ('"' :: rest) := by
    intro cs
    induction cs with
    | nil => simpa using hrest
    | cons c cs ih =>
        rw [List.foldr_cons, List.mem_append, not_or]
        exact ⟨cr_notMem_escapeChar c, ih⟩
  simpa [writeString] using hescaped s.toList

theorem cr_notMem_break (layout : Layout) (depth : Nat) : '\r' ∉ layout.break depth := by
  cases layout <;> simp [Layout.break]

theorem cr_notMem_comma (layout : Layout) : '\r' ∉ layout.comma := by
  cases layout <;> decide

theorem cr_notMem_int (value : Int) : '\r' ∉ (toString value).toList := by
  rw [toList_toString_int]
  intro hmem
  rcases List.mem_append.mp hmem with hsign | hdigit
  · split_ifs at hsign <;> simp at hsign
  · have := Nat.isDigit_of_mem_toDigits (by decide) (by decide) hdigit
    simp at this

mutual

/-- Nothing that is written holds a carriage return, so reading a file changes nothing. -/
theorem cr_notMem_write (layout : Layout) : (depth room : Nat) → (value : Json) →
    (rest : List Char) → Regular room value → '\r' ∉ rest → '\r' ∉ write layout depth value rest
  | _, _, null, rest, _, hrest => by simpa [write] using hrest
  | _, _, bool value, rest, _, hrest => by cases value <;> simpa [write] using hrest
  | _, _, int value, rest, _, hrest => by simpa [write] using ⟨cr_notMem_int value, hrest⟩
  | _, _, real _, _, hvalue, _ => absurd hvalue id
  | _, _, str s, rest, _, hrest => cr_notMem_writeString s rest hrest
  | _, _, arr [], rest, _, hrest => by simpa [write] using hrest
  | depth, room, arr (item :: items), rest, hvalue, hrest => by
      have hclose : '\r' ∉ layout.break depth ++ ']' :: rest := by
        simpa using ⟨cr_notMem_break layout depth, hrest⟩
      have hitems := cr_notMem_writeItems layout (depth + 1) (room - 1) items _ hvalue.2.2 hclose
      have hitem := cr_notMem_write layout (depth + 1) (room - 1) item _ hvalue.2.1 hitems
      simpa [write] using ⟨cr_notMem_break layout (depth + 1), hitem⟩
  | _, _, obj [], rest, _, hrest => by simpa [write] using hrest
  | depth, room, obj ((name, value) :: members), rest, hvalue, hrest => by
      have hclose : '\r' ∉ layout.break depth ++ '}' :: rest := by
        simpa using ⟨cr_notMem_break layout depth, hrest⟩
      have hmembers :=
        cr_notMem_writeMembers layout (depth + 1) (room - 1) members _ hvalue.2.2.2 hclose
      have hmember := cr_notMem_write layout (depth + 1) (room - 1) value _ hvalue.2.2.1 hmembers
      have hname := cr_notMem_writeString name (':' :: ' ' :: _) (by simpa using hmember)
      simpa [write] using ⟨cr_notMem_break layout (depth + 1), hname⟩

theorem cr_notMem_writeItems (layout : Layout) : (depth room : Nat) → (items : List Json) →
    (rest : List Char) → RegularItems room items → '\r' ∉ rest →
    '\r' ∉ writeItems layout depth items rest
  | _, _, [], rest, _, hrest => hrest
  | depth, room, item :: items, rest, hitems, hrest => by
      have hmore := cr_notMem_writeItems layout depth room items rest hitems.2 hrest
      have hitem := cr_notMem_write layout depth room item _ hitems.1 hmore
      simpa [writeItems] using ⟨cr_notMem_comma layout, cr_notMem_break layout depth, hitem⟩

theorem cr_notMem_writeMembers (layout : Layout) : (depth room : Nat) →
    (members : List (String × Json)) → (rest : List Char) → RegularMembers room members →
    '\r' ∉ rest → '\r' ∉ writeMembers layout depth members rest
  | _, _, [], rest, _, hrest => hrest
  | depth, room, (name, value) :: members, rest, hmembers, hrest => by
      have hmore := cr_notMem_writeMembers layout depth room members rest hmembers.2 hrest
      have hvalue := cr_notMem_write layout depth room value _ hmembers.1 hmore
      have hname := cr_notMem_writeString name (':' :: ' ' :: _) (by simpa using hvalue)
      simpa [writeMembers] using ⟨cr_notMem_comma layout, cr_notMem_break layout depth, hname⟩

end

end SourceChunks.Json
