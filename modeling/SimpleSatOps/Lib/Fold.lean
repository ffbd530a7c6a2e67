import Mathlib.Data.List.Nodup

/-!
# One pass over a list of indices

A loop `l.foldl step s` in which each step has an index, seen through one component `proj` of the state.

* `foldl_proj_of_not_mem` : a component that no step of the loop touches;
* `foldl_proj_of_mem` : a component that one step touches;
* `foldl_stays` : a property that no step destroys;
* `foldlM_stays` : the same where a step may fail;
* `foldlM_runs`, `foldlM_range` : a loop, and one over `0 … n`, in which no step fails.
-/

namespace SimpleSatOps

variable {σ ι α : Type*} {step : σ → ι → σ} {proj : σ → α} {i : ι}

theorem foldl_proj_of_not_mem (hother : ∀ s j, j ≠ i → proj (step s j) = proj s) {l : List ι} (h : i ∉ l) (s : σ) :
    proj (l.foldl step s) = proj s := by
  induction l generalizing s with
  | nil => rfl
  | cons j l ih =>
      rw [List.mem_cons, not_or] at h
      rw [List.foldl_cons, ih h.2, hother s j (Ne.symm h.1)]

/-- The component after the loop is what its one step makes of it. -/
theorem foldl_proj_of_mem {g : α → α} (hself : ∀ s, proj (step s i) = g (proj s))
    (hother : ∀ s j, j ≠ i → proj (step s j) = proj s) {l : List ι} (hl : l.Nodup) (h : i ∈ l) (s : σ) :
    proj (l.foldl step s) = g (proj s) := by
  induction l generalizing s with
  | nil => exact absurd h List.not_mem_nil
  | cons j l ih =>
      rw [List.nodup_cons] at hl
      rw [List.foldl_cons]
      rcases List.mem_cons.mp h with rfl | hmem
      · rw [foldl_proj_of_not_mem hother hl.1, hself]
      · have hne : j ≠ i := by
          rintro rfl
          exact hl.1 hmem
        rw [ih hl.2 hmem, hother s j hne]

theorem foldl_stays {P : σ → Prop} (h : ∀ s j, P s → P (step s j)) (l : List ι) {s : σ} (hs : P s) :
    P (l.foldl step s) := by
  induction l generalizing s with
  | nil => exact hs
  | cons j l ih => exact ih (h s j hs)

theorem foldlM_stays {f : σ → ι → Option σ} {P : σ → Prop} (h : ∀ s j t, P s → f s j = some t → P t) :
    ∀ (l : List ι) {s t : σ}, P s → l.foldlM f s = some t → P t
  | [], s, t, hs, ht => Option.some.inj ht ▸ hs
  | j :: l, s, t, hs, ht => by
      rw [List.foldlM_cons] at ht
      obtain ⟨u, hu, ht⟩ := Option.bind_eq_some_iff.mp ht
      exact foldlM_stays h l (h s j u hs hu) ht

/-- A loop whose invariant lets every step succeed. -/
theorem foldlM_runs {f : σ → ι → Option σ} {P : σ → Prop} :
    ∀ (l : List ι) {s : σ}, (∀ j ∈ l, ∀ t, P t → ∃ u, f t j = some u ∧ P u) → P s →
      ∃ u, l.foldlM f s = some u ∧ P u
  | [], s, _, hs => ⟨s, rfl, hs⟩
  | j :: l, s, h, hs => by
      obtain ⟨t, ht, hP⟩ := h j List.mem_cons_self s hs
      obtain ⟨u, hu, hP'⟩ := foldlM_runs l (fun k hk => h k (List.mem_cons_of_mem _ hk)) hP
      exact ⟨u, by rw [List.foldlM_cons, ht]; exact hu, hP'⟩

/-- A loop over `0 … n` whose invariant lets every step succeed. -/
theorem foldlM_range {f : σ → ℕ → Option σ} {P : ℕ → σ → Prop} {s : σ} (h0 : P 0 s) :
    ∀ n : ℕ, (∀ i < n, ∀ t, P i t → ∃ u, f t i = some u ∧ P (i + 1) u) →
      ∃ u, (List.range n).foldlM f s = some u ∧ P n u
  | 0, _ => ⟨s, rfl, h0⟩
  | n + 1, h => by
      obtain ⟨t, ht, hP⟩ := foldlM_range h0 n fun i hi => h i (by omega)
      obtain ⟨u, hu, hP'⟩ := h n (by omega) t hP
      refine ⟨u, ?_, hP'⟩
      rw [List.range_succ, List.foldlM_append, ht]
      show (List.foldlM f t [n]) = some u
      rw [List.foldlM_cons, hu]
      rfl

end SimpleSatOps
