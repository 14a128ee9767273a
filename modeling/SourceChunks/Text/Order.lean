/-!
# Sorting by name

Names are compared character by character.
-/

namespace SourceChunks.Text

/-- Texts in order. -/
def sorted (texts : List String) : List String :=
  texts.mergeSort fun a b => decide (a ≤ b)

/-- Named values in the order of their names. -/
def sortedByName {α : Type} (items : List (String × α)) : List (String × α) :=
  items.mergeSort fun a b => decide (a.1 ≤ b.1)

/-- Sorting only reorders. -/
theorem sorted_perm (texts : List String) : (sorted texts).Perm texts :=
  List.mergeSort_perm texts _

/-- Sorting only reorders. -/
theorem sortedByName_perm {α : Type} (items : List (String × α)) :
    (sortedByName items).Perm items :=
  List.mergeSort_perm items _

end SourceChunks.Text
