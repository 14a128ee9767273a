import Mathlib
import SourceChunks.Text.Order

/-!
# Lists in order and without repetition

* `nodup_eraseDups`: repetitions are dropped.
* `sorted_eq_of_perm`, `sortedByName_eq_of_perm`: sorting forgets the order that was there before,
  if no two items have one name.
-/

namespace SourceChunks

/-- A list has none of its items twice once repetitions are dropped. -/
theorem nodup_eraseDups {α : Type} [BEq α] [LawfulBEq α] (items : List α) :
    items.eraseDups.Nodup := by
  -- What comes behind the first item is made from the items that differ from it.
  induction hlength : items.length using Nat.strong_induction_on generalizing items with
  | _ n ih =>
      cases items with
      | nil => exact List.nodup_nil
      | cons item items =>
          rw [List.eraseDups_cons, List.nodup_cons, List.mem_eraseDups, List.mem_filter]
          have hle := List.length_filter_le (fun other => !other == item) items
          rw [List.length_cons] at hlength
          exact ⟨by simp, ih _ (by omega) _ rfl⟩

namespace Text

theorem pairwise_mergeSort_on {α : Type} (name : α → String) (items : List α) :
    (items.mergeSort fun a b => decide (name a ≤ name b)).Pairwise fun a b => name a ≤ name b := by
  have htrans : ∀ a b c : α, decide (name a ≤ name b) = true → decide (name b ≤ name c) = true →
      decide (name a ≤ name c) = true :=
    fun a b c hab hbc => decide_eq_true (le_trans (of_decide_eq_true hab) (of_decide_eq_true hbc))
  have htotal : ∀ a b : α, (decide (name a ≤ name b) || decide (name b ≤ name a)) = true :=
    fun a b => by simpa using le_total (name a) (name b)
  exact (List.pairwise_mergeSort htrans htotal items).imp of_decide_eq_true

theorem sorted_eq_of_perm {texts texts' : List String} (h : texts.Perm texts') :
    sorted texts = sorted texts' :=
  List.Perm.eq_of_pairwise (fun _ _ _ _ hab hba => le_antisymm hab hba)
    (pairwise_mergeSort_on id texts) (pairwise_mergeSort_on id texts')
    (((sorted_perm texts).trans h).trans (sorted_perm texts').symm)

/-- Items with distinct names are in one order only once they are sorted. -/
theorem sortedByName_eq_of_perm {α : Type} {items items' : List (String × α)}
    (hnames : (items.map (·.1)).Nodup) (h : items.Perm items') :
    sortedByName items = sortedByName items' := by
  refine List.Perm.eq_of_pairwise (fun a b ha hb hab hba => ?_) (pairwise_mergeSort_on _ items)
    (pairwise_mergeSort_on _ items')
    (((sortedByName_perm items).trans h).trans (sortedByName_perm items').symm)
  exact List.inj_on_of_nodup_map hnames ((sortedByName_perm items).mem_iff.mp ha)
    (h.mem_iff.mpr ((sortedByName_perm items').mem_iff.mp hb)) (le_antisymm hab hba)

end Text

end SourceChunks
