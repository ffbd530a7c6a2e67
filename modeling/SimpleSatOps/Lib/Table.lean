import Mathlib.Data.List.Pairwise
import Mathlib.Data.Finset.Lattice.Fold
import Mathlib.Tactic

/-!
# Tables with unique indexes

* `Index`, `Clash` : the columns of a unique index, and rows it does not allow together; NULL is equal to nothing;
* `Table` : rows by increasing ids, given from a counter that never goes back;
* `Table.insertOrIgnore` : the row, or nothing when an index rejects it;
* `Table.keepFirst` : of every group of rows the one with the least id.
-/

namespace SimpleSatOps

variable {ρ κ γ : Type*}

/-- The columns of a unique index; `none` is NULL. -/
abbrev Index (ρ κ : Type*) := ρ → List (Option κ)

/-- Two rows that a unique index does not allow together. -/
def Clash (i : Index ρ κ) (x y : ρ) : Prop := i x = i y ∧ none ∉ i x

instance [DecidableEq κ] (i : Index ρ κ) (x y : ρ) : Decidable (Clash i x y) := inferInstanceAs (Decidable (_ ∧ _))

theorem Clash.symm {i : Index ρ κ} {x y : ρ} (h : Clash i x y) : Clash i y x := ⟨h.1.symm, h.1 ▸ h.2⟩

/-- Rows with their ids; `seq` is the last id that was given. -/
structure Table (ρ : Type*) where
  rows : List (ℕ × ρ)
  seq : ℕ
  ids_lt : rows.Pairwise fun x y => x.1 < y.1
  ids_le : ∀ x ∈ rows, x.1 ≤ seq

namespace Table

def empty : Table ρ := ⟨[], 0, .nil, nofun⟩

/-- No two rows clash. -/
def Unique (t : Table ρ) (i : Index ρ κ) : Prop := t.rows.Pairwise fun x y => ¬ Clash i x.2 y.2

/-- Some index does not allow the row. -/
def Rejects (t : Table ρ) (is : List (Index ρ κ)) (r : ρ) : Prop := ∃ i ∈ is, ∃ x ∈ t.rows, Clash i x.2 r

instance [DecidableEq κ] (t : Table ρ) (i : Index ρ κ) : Decidable (t.Unique i) :=
  inferInstanceAs (Decidable (List.Pairwise _ _))

instance [DecidableEq κ] (t : Table ρ) (is : List (Index ρ κ)) (r : ρ) : Decidable (t.Rejects is r) :=
  inferInstanceAs (Decidable (∃ i ∈ is, ∃ x ∈ t.rows, Clash i x.2 r))

/-- An id is given, to no row. -/
def skip (t : Table ρ) : Table ρ where
  rows := t.rows
  seq := t.seq + 1
  ids_lt := t.ids_lt
  ids_le x hx := Nat.le_succ_of_le (t.ids_le x hx)

def append (t : Table ρ) (r : ρ) : Table ρ where
  rows := t.rows ++ [(t.seq + 1, r)]
  seq := t.seq + 1
  ids_lt := by
    refine List.pairwise_append.mpr ⟨t.ids_lt, List.pairwise_singleton _ _, fun x hx y hy => ?_⟩
    rw [List.mem_singleton.mp hy]
    exact Nat.lt_succ_of_le (t.ids_le x hx)
  ids_le x hx := by
    rcases List.mem_append.mp hx with hx | hx
    · exact Nat.le_succ_of_le (t.ids_le x hx)
    · rw [List.mem_singleton.mp hx]

/-- `INSERT OR IGNORE`: also a row that is rejected takes an id. -/
def insertOrIgnore [DecidableEq κ] (t : Table ρ) (is : List (Index ρ κ)) (r : ρ) : Table ρ :=
  if t.Rejects is r then t.skip else t.append r

def filter (t : Table ρ) (p : ℕ × ρ → Bool) : Table ρ where
  rows := t.rows.filter p
  seq := t.seq
  ids_lt := t.ids_lt.filter p
  ids_le x hx := t.ids_le x (List.mem_of_mem_filter hx)

/-- `DELETE ... WHERE id NOT IN (SELECT MIN(id) ... GROUP BY k)` -/
def keepFirst [DecidableEq γ] (t : Table ρ) (k : ρ → γ) : Table ρ :=
  t.filter fun x => decide (∀ y ∈ t.rows, k y.2 = k x.2 → x.1 ≤ y.1)

/-- `UPDATE ... SET` on every row. -/
def update (t : Table ρ) (f : ρ → ρ) : Table ρ where
  rows := t.rows.map (Prod.map id f)
  seq := t.seq
  ids_lt := List.pairwise_map.mpr t.ids_lt
  ids_le x hx := by
    obtain ⟨y, hy, rfl⟩ := List.mem_map.mp hx
    exact t.ids_le y hy

section Unique
variable {t : Table ρ} {i j : Index ρ κ} {is : List (Index ρ κ)} {r : ρ}

theorem unique_empty (i : Index ρ κ) : (empty : Table ρ).Unique i := .nil

theorem Unique.skip (h : t.Unique i) : t.skip.Unique i := h

theorem Unique.append (h : t.Unique i) (hr : ∀ x ∈ t.rows, ¬ Clash i x.2 r) : (t.append r).Unique i := by
  refine List.pairwise_append.mpr ⟨h, List.pairwise_singleton _ _, fun x hx y hy => ?_⟩
  rw [List.mem_singleton.mp hy]
  exact hr x hx

/-- An index that is checked on insertion stays unique. -/
theorem Unique.insertOrIgnore [DecidableEq κ] (h : t.Unique i) (hi : i ∈ is) : (t.insertOrIgnore is r).Unique i := by
  unfold Table.insertOrIgnore
  split
  · exact h.skip
  · next hrej => exact h.append fun x hx hclash => hrej ⟨i, hi, x, hx, hclash⟩

/-- An index on more columns allows more. -/
theorem Unique.mono (h : t.Unique i) (hij : ∀ x y, Clash j x y → Clash i x y) : t.Unique j :=
  h.imp fun hxy hclash => hxy (hij _ _ hclash)

theorem Unique.filter (h : t.Unique i) (p : ℕ × ρ → Bool) : (t.filter p).Unique i := List.Pairwise.filter p h

theorem Unique.keepFirst [DecidableEq γ] (h : t.Unique i) (k : ρ → γ) : (t.keepFirst k).Unique i := h.filter _

/-- An update that leaves the columns of the index alone. -/
theorem Unique.update (h : t.Unique i) {f : ρ → ρ} (hf : ∀ x, i (f x) = i x) : (t.update f).Unique i := by
  refine List.pairwise_map.mpr (h.imp ?_)
  intro x y hxy hclash
  unfold Clash at hclash
  simp only [Prod.map_snd, hf] at hclash
  exact hxy hclash

theorem insertOrIgnore_rows [DecidableEq κ] (t : Table ρ) (is : List (Index ρ κ)) (r : ρ) :
    t.rows <+: (t.insertOrIgnore is r).rows := by
  unfold Table.insertOrIgnore
  split
  · exact List.prefix_rfl
  · exact List.prefix_append _ _

/-- Every group keeps a row. -/
theorem exists_mem_keepFirst [DecidableEq γ] (k : ρ → γ) {x : ℕ × ρ} (hx : x ∈ t.rows) :
    ∃ y ∈ (t.keepFirst k).rows, k y.2 = k x.2 := by
  classical
  let group := t.rows.toFinset.filter fun y => k y.2 = k x.2
  have hgroup : ∀ y, y ∈ group ↔ y ∈ t.rows ∧ k y.2 = k x.2 := fun y => by
    rw [Finset.mem_filter, List.mem_toFinset]
  obtain ⟨y, hy, hmin⟩ := group.exists_min_image Prod.fst ⟨x, (hgroup x).mpr ⟨hx, rfl⟩⟩
  obtain ⟨hymem, hyk⟩ := (hgroup y).mp hy
  refine ⟨y, List.mem_filter.mpr ⟨hymem, decide_eq_true fun z hz hzk => ?_⟩, hyk⟩
  exact hmin z ((hgroup z).mpr ⟨hz, hzk.trans hyk⟩)

end Unique

end Table

end SimpleSatOps
