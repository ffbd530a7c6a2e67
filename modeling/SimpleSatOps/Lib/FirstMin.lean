import Mathlib.Tactic

/-!
# Scans for a first minimum

A scan keeps the first index of `[lo, hi)` at which `f` is least among the candidates `p`.

* `Best` : what the scan holds after reading `[lo, hi)`;
* `Best.skip`, `Best.take` : one index read;
* `Best.extend_of_zero` : a scan may stop at the value zero;
* `Best.congr`, `Best.unique` : the result depends on the values read only, and they determine it;
* `unbeaten` : what repeated scans, each from behind the last result on, return.
-/

namespace SimpleSatOps.FirstMin

/-- `k` is the first candidate of `[lo, hi)` with the least value. -/
structure IsFirstMin (f : ℕ → ℕ) (p : ℕ → Prop) (lo hi k : ℕ) : Prop where
  lo_le : lo ≤ k
  lt_hi : k < hi
  candidate : p k
  le : ∀ j, lo ≤ j → j < hi → p j → f k ≤ f j
  lt : ∀ j, lo ≤ j → j < k → p j → f k < f j

/-- The outcome of a scan of `[lo, hi)`. -/
def Best (f : ℕ → ℕ) (p : ℕ → Prop) (lo hi : ℕ) : Option ℕ → Prop
  | none => ∀ j, lo ≤ j → j < hi → ¬ p j
  | some k => IsFirstMin f p lo hi k

variable {f : ℕ → ℕ} {p : ℕ → Prop} {lo hi : ℕ}

theorem Best.empty : Best f p lo lo none := fun _ h1 h2 => absurd h2 (Nat.not_lt.mpr h1)

theorem Best.skip_none (h : Best f p lo hi none) (hp : ¬ p hi) : Best f p lo (hi + 1) none := fun j h1 h2 =>
  (Nat.lt_succ_iff_lt_or_eq.mp h2).elim (h j h1) fun heq => heq ▸ hp

theorem Best.skip_some {k : ℕ} (h : Best f p lo hi (some k)) (hp : p hi → f k ≤ f hi) :
    Best f p lo (hi + 1) (some k) where
  lo_le := h.lo_le
  lt_hi := h.lt_hi.trans (Nat.lt_succ_self hi)
  candidate := h.candidate
  le j h1 h2 hj := (Nat.lt_succ_iff_lt_or_eq.mp h2).elim (fun hlt => h.le j h1 hlt hj) fun heq => by
    subst heq
    exact hp hj
  lt := h.lt

theorem Best.take {best : Option ℕ} (h : Best f p lo hi best) (hle : lo ≤ hi) (hp : p hi)
    (hlt : ∀ k, best = some k → f hi < f k) : Best f p lo (hi + 1) (some hi) := by
  have hbelow : ∀ j, lo ≤ j → j < hi → p j → f hi < f j := by
    intro j h1 h2 hj
    cases best with
    | none => exact absurd hj (h j h1 h2)
    | some k => exact (hlt k rfl).trans_le (h.le j h1 h2 hj)
  refine ⟨hle, Nat.lt_succ_self hi, hp, fun j h1 h2 hj => ?_, hbelow⟩
  rcases Nat.lt_succ_iff_lt_or_eq.mp h2 with hj' | rfl
  · exact (hbelow j h1 hj' hj).le
  · exact le_rfl

/-- Nothing read later beats the value zero. -/
theorem Best.extend_of_zero {k : ℕ} (h : Best f p lo hi (some k)) (h0 : f k = 0) {hi' : ℕ} (hle : hi ≤ hi') :
    Best f p lo hi' (some k) :=
  ⟨h.lo_le, h.lt_hi.trans_le hle, h.candidate, fun _ _ _ _ => h0 ▸ Nat.zero_le _, h.lt⟩

/-- Only the values on `[lo, hi)` matter. -/
theorem Best.congr {g : ℕ → ℕ} {q : ℕ → Prop} {best : Option ℕ} (h : Best f p lo hi best)
    (hfg : ∀ j, lo ≤ j → j < hi → g j = f j) (hpq : ∀ j, lo ≤ j → j < hi → (q j ↔ p j)) :
    Best g q lo hi best := by
  cases best with
  | none => exact fun j h1 h2 hq => h j h1 h2 ((hpq j h1 h2).mp hq)
  | some k =>
    have hk := hfg k h.lo_le h.lt_hi
    refine ⟨h.lo_le, h.lt_hi, (hpq k h.lo_le h.lt_hi).mpr h.candidate, fun j h1 h2 hq => ?_, fun j h1 h2 hq => ?_⟩
    · rw [hk, hfg j h1 h2]
      exact h.le j h1 h2 ((hpq j h1 h2).mp hq)
    · have hj := h2.trans h.lt_hi
      rw [hk, hfg j h1 hj]
      exact h.lt j h1 h2 ((hpq j h1 hj).mp hq)

theorem Best.unique {a b : Option ℕ} (ha : Best f p lo hi a) (hb : Best f p lo hi b) : a = b := by
  cases a with
  | none =>
    cases b with
    | none => rfl
    | some k => exact absurd hb.candidate (ha k hb.lo_le hb.lt_hi)
  | some k =>
    cases b with
    | none => exact absurd ha.candidate (hb k ha.lo_le ha.lt_hi)
    | some l =>
      rcases Nat.lt_trichotomy k l with h | h | h
      · exact absurd (ha.le l hb.lo_le hb.lt_hi hb.candidate) (Nat.not_le.mpr (hb.lt k ha.lo_le h ha.candidate))
      · rw [h]
      · exact absurd (hb.le k ha.lo_le ha.lt_hi ha.candidate) (Nat.not_le.mpr (ha.lt l hb.lo_le h hb.candidate))

/-! ## Repeated scans -/

section Unbeaten
variable (f : ℕ → ℕ) (p : ℕ → Prop) (n : ℕ)

/-- A candidate of `[0, n)` that no later candidate beats. -/
def Unbeaten (k : ℕ) : Prop := p k ∧ ∀ j < n, k < j → p j → f k ≤ f j

instance [DecidablePred p] (k : ℕ) : Decidable (Unbeaten f p n k) := inferInstanceAs (Decidable (_ ∧ _))

/-- The unbeaten candidates from `m` on, in order. -/
def unbeaten [DecidablePred p] (m : ℕ) : List ℕ := (List.range' m (n - m)).filter fun k => Unbeaten f p n k

end Unbeaten

variable {n m : ℕ} [DecidablePred p]

theorem mem_unbeaten {k : ℕ} : k ∈ unbeaten f p n m ↔ m ≤ k ∧ k < n ∧ Unbeaten f p n k := by
  unfold unbeaten
  rw [List.mem_filter, List.mem_range'_1, decide_eq_true_eq]
  constructor
  · rintro ⟨⟨h1, h2⟩, h3⟩
    exact ⟨h1, by omega, h3⟩
  · rintro ⟨h1, h2, h3⟩
    exact ⟨⟨h1, by omega⟩, h3⟩

theorem unbeaten_of_none (h : Best f p m n none) : unbeaten f p n m = [] := by
  refine List.eq_nil_iff_forall_not_mem.mpr fun k hk => ?_
  obtain ⟨h1, h2, h3⟩ := mem_unbeaten.mp hk
  exact h k h1 h2 h3.1

/-- The scan from `m` on returns the first unbeaten candidate. -/
theorem unbeaten_of_some {k : ℕ} (h : Best f p m n (some k)) : unbeaten f p n m = k :: unbeaten f p n (k + 1) := by
  have hmk := h.lo_le
  have hkn := h.lt_hi
  have hsplit : List.range' m (n - m) = List.range' m (k - m) ++ k :: List.range' (k + 1) (n - (k + 1)) := by
    have hcons : k :: List.range' (k + 1) (n - (k + 1)) = List.range' k (n - k) := by
      rw [show n - k = (n - (k + 1)) + 1 by omega, List.range'_succ]
    rw [hcons]
    have happ := List.range'_append_1 (s := m) (m := k - m) (n := n - k)
    rw [Nat.add_sub_of_le hmk] at happ
    rw [happ]
    congr 1
    omega
  have hbefore : (List.range' m (k - m)).filter (fun j => Unbeaten f p n j) = [] := by
    refine List.filter_eq_nil_iff.mpr fun j hj => ?_
    obtain ⟨h1, h2⟩ := List.mem_range'_1.mp hj
    rw [decide_eq_true_eq]
    intro hun
    exact absurd (hun.2 k hkn (by omega) h.candidate) (Nat.not_le.mpr (h.lt j h1 (by omega) hun.1))
  have hk : Unbeaten f p n k := ⟨h.candidate, fun j hj hlt hp => h.le j (by omega) hj hp⟩
  unfold unbeaten
  rw [hsplit, List.filter_append, hbefore, List.nil_append]
  exact List.filter_cons_of_pos (decide_eq_true hk)

theorem unbeaten_step (m : ℕ) :
    unbeaten f p n m = (if m < n ∧ Unbeaten f p n m then [m] else []) ++ unbeaten f p n (m + 1) := by
  unfold unbeaten
  by_cases hm : m < n
  · rw [show n - m = (n - (m + 1)) + 1 by omega, List.range'_succ, List.filter_cons]
    simp only [hm, true_and, decide_eq_true_eq]
    split_ifs <;> rfl
  · rw [show n - m = 0 by omega, show n - (m + 1) = 0 by omega, if_neg fun h => hm h.1]
    rfl

/-- Below `k` nothing meets `q`: a scan from `m` and one from `k` on agree there. -/
theorem filter_unbeaten_of_le {k : ℕ} (h : m ≤ k) (q : ℕ → Prop) [DecidablePred q] (hq : ∀ j < k, m ≤ j → ¬ q j) :
    (unbeaten f p n m).filter (fun j => q j) = (unbeaten f p n k).filter fun j => q j := by
  induction h using Nat.decreasingInduction with
  | self => rfl
  | of_succ m hlt ih =>
    rw [unbeaten_step, List.filter_append, ih fun j hj hle => hq j hj (by omega)]
    have hm : ¬ q m := hq m hlt le_rfl
    split_ifs
    · rw [List.filter_cons_of_neg (by simpa using hm), List.filter_nil, List.nil_append]
    · rw [List.filter_nil, List.nil_append]

end SimpleSatOps.FirstMin
