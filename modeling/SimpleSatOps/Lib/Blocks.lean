import Mathlib.Data.List.Basic
import Mathlib.Tactic

/-!
# A stream in blocks

What a consumer has made of a stream that it takes in blocks of `n`, whatever the pieces it came in.

* `cut` : the whole blocks of a stream, and the rest;
* `Cut`, `Cut.cut_eq` : the same as a relation;
* `Cut.append`, `Cut.append_full` : a piece that leaves the block open, and one that fills it.
-/

namespace SimpleSatOps

variable {α : Type*}

/-- The whole blocks of `n`, and what is left behind them. -/
def cut (n : ℕ) (xs : List α) : List (List α) × List α :=
  if n = 0 ∨ xs.length < n then ([], xs)
  else (xs.take n :: (cut n (xs.drop n)).1, (cut n (xs.drop n)).2)
termination_by xs.length
decreasing_by all_goals rw [List.length_drop]; omega

/-- The stream `xs` is the blocks and then the rest, which is too short for a block. -/
structure Cut (n : ℕ) (xs : List α) (blocks : List (List α)) (rest : List α) : Prop where
  eq : xs = blocks.flatten ++ rest
  length : ∀ b ∈ blocks, b.length = n
  lt : rest.length < n

namespace Cut
variable {n : ℕ} {xs : List α} {blocks : List (List α)} {rest : List α}

theorem nil (hn : 0 < n) : Cut n ([] : List α) [] [] where
  eq := rfl
  length := by simp
  lt := hn

/-- The piece leaves the block open. -/
theorem append (h : Cut n xs blocks rest) {ys : List α} (hlt : rest.length + ys.length < n) :
    Cut n (xs ++ ys) blocks (rest ++ ys) where
  eq := by rw [h.eq, List.append_assoc]
  length := h.length
  lt := by rwa [List.length_append]

/-- The piece fills the block. -/
theorem append_full (h : Cut n xs blocks rest) {ys : List α} (hlen : rest.length + ys.length = n) :
    Cut n (xs ++ ys) (blocks ++ [rest ++ ys]) [] where
  eq := by rw [h.eq, List.flatten_append, List.flatten_singleton, List.append_nil, List.append_assoc]
  length b hb := by
    rcases List.mem_append.mp hb with hmem | hlast
    · exact h.length b hmem
    · rw [List.mem_singleton.mp hlast, List.length_append, hlen]
  lt := (Nat.zero_le _).trans_lt h.lt

theorem cut_eq (h : Cut n xs blocks rest) : cut n xs = (blocks, rest) := by
  have hlt := h.lt
  induction blocks generalizing xs with
  | nil =>
      have heq : xs = rest := h.eq
      rw [cut, if_pos (.inr (by rwa [heq])), heq]
  | cons b bs ih =>
      have hb : b.length = n := h.length b (by simp)
      have heq : xs = b ++ (bs.flatten ++ rest) := by rw [h.eq, List.flatten_cons, List.append_assoc]
      have hlen : n ≤ xs.length := by
        rw [heq, List.length_append]
        omega
      have htail : Cut n (bs.flatten ++ rest) bs rest := ⟨rfl, fun c hc => h.length c (by simp [hc]), hlt⟩
      rw [cut, if_neg (by omega), heq, List.take_left' hb, List.drop_left' hb, ih htail]

end Cut

end SimpleSatOps
