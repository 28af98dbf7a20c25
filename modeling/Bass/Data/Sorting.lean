import Mathlib.Data.List.Pairwise
import Mathlib.Data.List.Sort

/-!
# Stable sorting by a key

What insertion sort by a key puts first, and how it goes together with filtering.
-/

namespace Sorting

variable {α β : Type} [LinearOrder β] (key : α → β)

theorem filter_orderedInsert (keep : α → Bool) (a : α) {l : List α}
    (hsorted : l.Pairwise fun x y => key x ≤ key y) :
    (l.orderedInsert (fun x y => key x ≤ key y) a).filter keep =
      if keep a then (l.filter keep).orderedInsert (fun x y => key x ≤ key y) a
      else l.filter keep := by
  induction l with
  | nil => by_cases ha : keep a <;> simp [ha]
  | cons b l ih =>
      have ih := ih hsorted.of_cons
      by_cases hle : key a ≤ key b
      · have hfirst : ∀ c ∈ (b :: l).filter keep, key a ≤ key c := by
          intro c hc
          rcases List.mem_cons.mp (List.mem_of_mem_filter hc) with rfl | hmem
          · exact hle
          · exact hle.trans (List.rel_of_pairwise_cons hsorted hmem)
        rw [List.orderedInsert_cons_of_le (r := fun x y => key x ≤ key y) _ hle, List.filter_cons]
        by_cases ha : keep a
        · rw [if_pos ha, if_pos ha]
          cases hrest : (b :: l).filter keep with
          | nil => rfl
          | cons c rest =>
              rw [List.orderedInsert_cons_of_le]
              apply hfirst
              rw [hrest]
              exact List.mem_cons_self
        · rw [if_neg ha, if_neg ha]
      · rw [List.orderedInsert_of_not_le (r := fun x y => key x ≤ key y) _ hle, List.filter_cons, ih, List.filter_cons]
        by_cases ha : keep a <;> by_cases hb : keep b <;> simp [ha, hb, hle]

/-- Sorting keeps what is filtered in order. -/
theorem filter_insertionSort (keep : α → Bool) (l : List α) :
    (l.insertionSort fun x y => key x ≤ key y).filter keep =
      (l.filter keep).insertionSort fun x y => key x ≤ key y := by
  induction l with
  | nil => rfl
  | cons a l ih =>
      have : Std.Total fun x y : α => key x ≤ key y := ⟨fun x y => le_total _ _⟩
      have : IsTrans α fun x y => key x ≤ key y := ⟨fun _ _ _ => le_trans⟩
      rw [List.insertionSort_cons, filter_orderedInsert key keep a (List.pairwise_insertionSort _ l), ih]
      by_cases ha : keep a <;> simp [ha]

/-- The first element of the sorted list has the least key, and is the first one with that key. -/
theorem head?_insertionSort {a : α} {l : List α}
    (h : (l.insertionSort fun x y => key x ≤ key y).head? = some a) :
    ∃ before after, l = before ++ a :: after ∧ (∀ b ∈ before, key a < key b) ∧
      ∀ b ∈ after, key a ≤ key b := by
  induction l with
  | nil => cases h
  | cons c l ih =>
      have hmem : ∀ b ∈ l, b ∈ l.insertionSort fun x y => key x ≤ key y := fun b hb =>
        (List.mem_insertionSort _).mpr hb
      have : Std.Total fun x y : α => key x ≤ key y := ⟨fun x y => le_total _ _⟩
      have : IsTrans α fun x y => key x ≤ key y := ⟨fun _ _ _ => le_trans⟩
      have hsorted := List.pairwise_insertionSort (fun x y => key x ≤ key y) l
      rw [List.insertionSort_cons] at h
      cases hrest : l.insertionSort fun x y => key x ≤ key y with
      | nil =>
          rw [hrest] at h hmem
          obtain rfl : c = a := Option.some.inj h
          exact ⟨[], l, rfl, by simp, fun b hb => absurd (hmem b hb) List.not_mem_nil⟩
      | cons d rest =>
          rw [hrest] at h hmem hsorted
          by_cases hle : key c ≤ key d
          · rw [List.orderedInsert_cons_of_le (r := fun x y => key x ≤ key y) _ hle] at h
            obtain rfl : c = a := Option.some.inj h
            refine ⟨[], l, rfl, by simp, ?_⟩
            intro b hb
            rcases List.mem_cons.mp (hmem b hb) with rfl | hb
            · exact hle
            · exact hle.trans (List.rel_of_pairwise_cons hsorted hb)
          · rw [List.orderedInsert_of_not_le (r := fun x y => key x ≤ key y) _ hle] at h
            obtain rfl : d = a := Option.some.inj h
            obtain ⟨before, after, rfl, hbefore, hafter⟩ := ih (by rw [hrest]; rfl)
            refine ⟨c :: before, after, rfl, ?_, hafter⟩
            intro b hb
            rcases List.mem_cons.mp hb with rfl | hb
            · exact not_le.mp hle
            · exact hbefore b hb

/-- With distinct keys the sorted list does not depend on the order of the list. -/
theorem insertionSort_eq_of_perm {l l' : List α} (h : l.Perm l')
    (hdistinct : l.Pairwise fun x y => key x ≠ key y) :
    (l.insertionSort fun x y => key x ≤ key y) = l'.insertionSort fun x y => key x ≤ key y := by
  have : Std.Total fun x y : α => key x ≤ key y := ⟨fun x y => le_total _ _⟩
  have : IsTrans α fun x y => key x ≤ key y := ⟨fun _ _ _ => le_trans⟩
  have : Std.Symm fun x y : α => key x ≠ key y := ⟨fun _ _ hne => hne.symm⟩
  have hperm := (List.perm_insertionSort (fun x y => key x ≤ key y) l).trans
    (h.trans (List.perm_insertionSort (fun x y => key x ≤ key y) l').symm)
  apply List.Perm.eq_of_pairwise _ (List.pairwise_insertionSort _ l) (List.pairwise_insertionSort _ l')
    hperm
  intro x y hx hy hxy hyx
  have hkey : key x = key y := le_antisymm hxy hyx
  by_contra hne
  exact hdistinct.forall ((List.mem_insertionSort _).mp hx)
    (h.mem_iff.mpr ((List.mem_insertionSort _).mp hy)) hne hkey

end Sorting
