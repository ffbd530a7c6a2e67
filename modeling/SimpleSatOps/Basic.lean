import Mathlib.Data.List.Basic
import Mathlib.Data.Nat.Notation
import Mathlib.Tactic

/-!
# Buffers

* `Bytes n` : a byte array of `n` bytes;
* `zeros` : a cleared one;
* `slice` : the bytes a `memcpy` of `n` bytes from offset `off` copies;
* `tab` : the array a loop over its indices fills;
* `overlay` : a buffer whose first entries have been written;
* `store`, `moveDown` : the writes that stay inside a buffer.
-/

namespace SimpleSatOps

/-- A fixed-size byte array. -/
abbrev Bytes (n : ℕ) : Type := {bs : List UInt8 // bs.length = n}

/-- `memset(buf, 0, n)`. -/
def zeros (n : ℕ) : Bytes n := ⟨List.replicate n 0, List.length_replicate⟩

def slice {α : Type*} (l : List α) (off n : ℕ) : List α := (l.drop off).take n

/-- `for (i = 0; i < n; ++i) a[i] = f(i)`. -/
def tab {α : Type*} (n : ℕ) (f : ℕ → α) : List α := (List.range n).map f

/-- The buffer `buf` after its first `xs.length` entries were written. -/
def overlay {α : Type*} (xs buf : List α) : List α := xs ++ buf.drop xs.length

/-- `buf[i] = v`; `none` outside the buffer. -/
def store {α : Type*} (buf : List α) (i : ℕ) (v : α) : Option (List α) :=
  if i < buf.length then some (buf.set i v) else none

/-- `memmove(buf, buf + off, n)`; `none` outside the buffer. -/
def moveDown {α : Type*} (buf : List α) (off n : ℕ) : Option (List α) :=
  if off + n ≤ buf.length then some (overlay (slice buf off n) buf) else none

@[simp] theorem length_tab {α : Type*} (n : ℕ) (f : ℕ → α) : (tab n f).length = n := by simp [tab]

theorem getD_tab {α : Type*} (n : ℕ) (f : ℕ → α) (d : α) (i : ℕ) :
    (tab n f).getD i d = if i < n then f i else d := by
  simp only [tab, List.getD_eq_getElem?_getD, List.getElem?_map]
  split_ifs with h
  · simp [h]
  · rw [List.getElem?_eq_none (by simpa using h)]
    rfl

theorem tab_succ {α : Type*} (n : ℕ) (f : ℕ → α) : tab (n + 1) f = f 0 :: tab n fun i => f (i + 1) := by
  unfold tab
  rw [List.range_succ_eq_map, List.map_cons, List.map_map]
  rfl

theorem take_overlay {α : Type*} (xs buf : List α) : (overlay xs buf).take xs.length = xs := by
  simp [overlay]

theorem slice_append_left {α : Type*} (xs ys zs : List α) :
    slice (xs ++ ys ++ zs) xs.length ys.length = ys := by
  simp [slice]

theorem length_slice {α : Type*} {l : List α} {off n : ℕ} (h : off + n ≤ l.length) : (slice l off n).length = n := by
  unfold slice
  rw [List.length_take, List.length_drop]
  omega

theorem slice_append_of_le {α : Type*} {l : List α} {off n : ℕ} (h : off + n ≤ l.length) (t : List α) :
    slice (l ++ t) off n = slice l off n := by
  unfold slice
  rw [List.drop_append_of_le_length (by omega), List.take_append_of_le_length (by rw [List.length_drop]; omega)]

theorem length_overlay {α : Type*} {xs buf : List α} (h : xs.length ≤ buf.length) :
    (overlay xs buf).length = buf.length := by
  unfold overlay
  rw [List.length_append, List.length_drop]
  omega

theorem getD_set {α : Type*} {l : List α} {i : ℕ} (h : i < l.length) (v : α) (k : ℕ) (d : α) :
    (l.set i v).getD k d = if k = i then v else l.getD k d := by
  rw [List.getD_eq_getElem?_getD]
  by_cases hk : k = i
  · rw [hk, List.getElem?_set_self h, if_pos rfl]
    rfl
  · rw [List.getElem?_set_ne (Ne.symm hk), if_neg hk, List.getD_eq_getElem?_getD]

theorem store_of_lt {α : Type*} {buf : List α} {i : ℕ} (h : i < buf.length) (v : α) :
    store buf i v = some (buf.set i v) := if_pos h

theorem moveDown_of_le {α : Type*} {buf : List α} {off n : ℕ} (h : off + n ≤ buf.length) :
    moveDown buf off n = some (overlay (slice buf off n) buf) := if_pos h

theorem take_succ_set {α : Type*} {buf : List α} {i : ℕ} (h : i < buf.length) (v : α) :
    (buf.set i v).take (i + 1) = buf.take i ++ [v] := by
  rw [List.take_add_one, List.getElem?_set_self h, List.take_set_of_le le_rfl]
  rfl

end SimpleSatOps
