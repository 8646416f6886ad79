import ImportLint.Report
import Mathlib.Data.List.Basic
import Mathlib.Data.List.Pairwise

/-!
The order of reports.  Sorting by places keeps the order of what stands at one place, so that it does
not matter whether findings are picked out before or after.
-/

namespace ImportLint.Proofs.ReportOrder

section Stability

variable {α : Type} {le : α → α → Bool}

/-- There is one way to cut a list into what an item may not precede and what it may. -/
theorem cut_unique {item : α} {front back front' back' : List α}
    (hfront : ∀ b ∈ front, (!le item b) = true) (hback : ∀ b ∈ back, le item b = true)
    (hfront' : ∀ b ∈ front', (!le item b) = true) (hback' : ∀ b ∈ back', le item b = true)
    (h : front ++ back = front' ++ back') : front = front' ∧ back = back' := by
  have htakeWhile {before after : List α} (hbefore : ∀ b ∈ before, (!le item b) = true)
      (hafter : ∀ b ∈ after, le item b = true) :
      (before ++ after).takeWhile (!le item ·) = before := by
    rw [List.takeWhile_append_of_pos hbefore]
    rcases after with _ | ⟨b, after⟩
    · simp
    · simp [hafter b (by simp)]
  have hfronts : front = front' := by
    rw [← htakeWhile hfront hback, h, htakeWhile hfront' hback']
  refine ⟨hfronts, ?_⟩
  rw [hfronts] at h
  exact List.append_cancel_left h

variable (htrans : ∀ a b c, le a b = true → le b c = true → le a c = true)
  (htotal : ∀ a b, (le a b || le b a) = true)

include htrans htotal

/-- An item is sorted in behind exactly those that it may not precede. -/
theorem exists_mergeSort_cons (item : α) (items : List α) :
    ∃ front back, (item :: items).mergeSort le = front ++ item :: back ∧
      items.mergeSort le = front ++ back ∧ (∀ b ∈ front, (!le item b) = true) ∧
      ∀ b ∈ back, le item b = true := by
  obtain ⟨front, back, hcons, hrest, hfront⟩ := List.mergeSort_cons htrans htotal item items
  have hsorted : (front ++ item :: back).Pairwise (le · · = true) := by
    rw [← hcons]
    exact List.pairwise_mergeSort htrans htotal (item :: items)
  have hback : ∀ b ∈ back, le item b = true :=
    (List.pairwise_cons.mp (List.pairwise_append.mp hsorted).2.1).1
  exact ⟨front, back, hcons, hrest, hfront, hback⟩

theorem filter_mergeSort (keep : α → Bool) (items : List α) :
    (items.mergeSort le).filter keep = (items.filter keep).mergeSort le := by
  induction items with
  | nil => simp
  | cons item items ih =>
      obtain ⟨front, back, hcons, hrest, hfront, hback⟩ :=
        exists_mergeSort_cons htrans htotal item items
      rw [hrest, List.filter_append] at ih
      rw [hcons, List.filter_append]
      by_cases hkeep : keep item = true
      · obtain ⟨front', back', hcons', hrest', hfront', hback'⟩ :=
          exists_mergeSort_cons htrans htotal item (items.filter keep)
        rw [hrest'] at ih
        obtain ⟨hfronts, hbacks⟩ :=
          cut_unique (fun b hb => hfront b (List.mem_of_mem_filter hb))
            (fun b hb => hback b (List.mem_of_mem_filter hb)) hfront' hback' ih
        rw [List.filter_cons_of_pos hkeep, List.filter_cons_of_pos hkeep, hcons', hfronts, hbacks]
      · rw [List.filter_cons_of_neg hkeep, List.filter_cons_of_neg hkeep]
        exact ih

/-- Where no two items tie, the sorted list does not depend on the order they came in. -/
theorem mergeSort_eq_of_perm {items others : List α} (hperm : others.Perm items)
    (hties : items.Pairwise fun a b => ¬ (le a b = true ∧ le b a = true)) :
    others.mergeSort le = items.mergeSort le := by
  have : Std.Symm fun a b => ¬ (le a b = true ∧ le b a = true) := ⟨fun a b h h' => h h'.symm⟩
  refine @List.Perm.eq_of_pairwise _ (le · · = true) _ _ ?_
    (List.pairwise_mergeSort htrans htotal others) (List.pairwise_mergeSort htrans htotal items)
    ((List.mergeSort_perm _ _).trans (hperm.trans (List.mergeSort_perm _ _).symm))
  intro a b ha hb hle hle'
  rw [List.mem_mergeSort, hperm.mem_iff] at ha
  rw [List.mem_mergeSort] at hb
  by_contra hne
  exact hties.forall ha hb hne ⟨hle, hle'⟩

end Stability

theorem order_eq_compareLex :
    Location.order = compareLex (compareOn fun location => Path.key location.file)
      (compareLex (compareOn Location.line) (compareOn Location.column)) :=
  rfl

instance : Std.TransCmp Location.order := by
  rw [order_eq_compareLex]
  infer_instance

theorem placedBefore_trans (left middle right : Violation)
    (h : left.placedBefore middle = true) (h' : middle.placedBefore right = true) :
    left.placedBefore right = true :=
  Std.TransCmp.isLE_trans h h'

theorem placedBefore_total (left right : Violation) :
    (left.placedBefore right || right.placedBefore left) = true := by
  have hswap : right.location.order left.location = (left.location.order right.location).swap :=
    Std.OrientedCmp.eq_swap
  rw [Violation.placedBefore, Violation.placedBefore, hswap]
  cases left.location.order right.location <;> rfl

/-- Findings can be picked out before or after they are sorted. -/
theorem filter_sort (report : Report) (keep : Violation → Bool) :
    report.sort.violations.filter keep =
      (report.violations.filter keep).mergeSort Violation.placedBefore :=
  filter_mergeSort placedBefore_trans placedBefore_total keep report.violations

end ImportLint.Proofs.ReportOrder
