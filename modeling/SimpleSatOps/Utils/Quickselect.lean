import Mathlib.Data.List.GetD
import Mathlib.Data.List.Sort
import Mathlib.Logic.Equiv.Basic
import Mathlib.Order.Interval.Set.Basic
import Mathlib.Tactic

/-!
# Selection in place (`median_inplace` of `waterfall_core.c`)

An array is a function of the index, and its length; what is `none` has read outside of the array or run out of fuel.

* `scanUp`, `scanDown`, `partitionLoop`, `quickselect`, `medianInplace` : the loops;
* `Partitioned`, `partitionLoop_spec` : what the loop over `i` and `j` leaves;
* `orderStat`, `quickselect_spec` : the element that a sorted array has at the place.
-/

namespace SimpleSatOps.Quickselect

variable {α : Type*}

/-! ## The loops -/

/-- `buf[i]` -/
def get (n : ℤ) (buf : ℤ → α) (i : ℤ) : Option α := if 0 ≤ i ∧ i < n then some (buf i) else none

theorem get_of_lt {n : ℤ} {buf : ℤ → α} {i : ℤ} (h : 0 ≤ i ∧ i < n) : get n buf i = some (buf i) := if_pos h

variable [LinearOrder α]

/-- `while (buf[i] < pivot) ++i;` -/
def scanUp (n : ℤ) (buf : ℤ → α) (pivot : α) : (fuel : ℕ) → ℤ → Option ℤ
  | 0, _ => none
  | fuel + 1, i => (get n buf i).bind fun x => if x < pivot then scanUp n buf pivot fuel (i + 1) else some i

/-- `while (buf[j] > pivot) --j;` -/
def scanDown (n : ℤ) (buf : ℤ → α) (pivot : α) : (fuel : ℕ) → ℤ → Option ℤ
  | 0, _ => none
  | fuel + 1, j => (get n buf j).bind fun x => if pivot < x then scanDown n buf pivot fuel (j - 1) else some j

/-- The loop `while (i <= j)`. -/
def partitionLoop (n : ℤ) (pivot : α) : (fuel : ℕ) → (ℤ → α) → ℤ → ℤ → Option ((ℤ → α) × ℤ × ℤ)
  | 0, _, _, _ => none
  | fuel + 1, buf, i, j =>
      if i ≤ j then
        (scanUp n buf pivot (n.toNat + 1) i).bind fun i =>
          (scanDown n buf pivot (n.toNat + 1) j).bind fun j =>
            if i ≤ j then partitionLoop n pivot fuel (buf ∘ Equiv.swap i j) (i + 1) (j - 1)
            else partitionLoop n pivot fuel buf i j
      else some (buf, i, j)

/-- The loop `while (lo < hi)`, and `buf[k]` behind it. -/
def quickselect (n k : ℤ) : (fuel : ℕ) → (ℤ → α) → ℤ → ℤ → Option ((ℤ → α) × α)
  | 0, _, _, _ => none
  | fuel + 1, buf, lo, hi =>
      if lo < hi then
        (get n buf ((lo + hi) / 2)).bind fun pivot =>
          (partitionLoop n pivot (n.toNat + 2) buf lo hi).bind fun (buf, i, j) =>
            if k ≤ j then quickselect n k fuel buf lo j
            else if i ≤ k then quickselect n k fuel buf i hi
            else (get n buf k).map fun v => (buf, v)
      else (get n buf k).map fun v => (buf, v)

/-- `median_inplace` -/
def medianInplace [Zero α] (buf : ℤ → α) (n : ℤ) : Option ((ℤ → α) × α) :=
  if n ≤ 0 then some (buf, 0) else quickselect n (n / 2) (n.toNat + 1) buf 0 (n - 1)

example : (medianInplace (fun i => ([3, 1, 2, 5, 4] : List ℤ).getD i.toNat 0) 5).map Prod.snd = some 3 := by
  decide +kernel

/-! ## Scans -/

section
variable {n : ℤ} {buf : ℤ → α} {pivot : α}

/-- A scan upwards stops no later than at an element that is not below the pivot. -/
theorem scanUp_spec (fuel : ℕ) {i p : ℤ} (hi : 0 ≤ i) (hp : p < n) (hip : i ≤ p) (hstop : pivot ≤ buf p)
    (hfuel : p - i < fuel) :
    ∃ i', scanUp n buf pivot fuel i = some i' ∧ i ≤ i' ∧ i' ≤ p ∧ pivot ≤ buf i' ∧
      ∀ q, i ≤ q → q < i' → buf q < pivot := by
  induction fuel generalizing i with
  | zero =>
      rw [Nat.cast_zero] at hfuel
      omega
  | succ fuel ih =>
      rw [scanUp, get_of_lt ⟨hi, by omega⟩, Option.bind_some]
      split_ifs with hlt
      · have hne : i ≠ p := fun heq => absurd hstop (not_le.mpr (heq ▸ hlt))
        obtain ⟨i', hrun, hle, hle', hge, hbelow⟩ :=
          ih (i := i + 1) (by omega) (by omega) (by push_cast at hfuel; omega)
        refine ⟨i', hrun, by omega, hle', hge, fun q hq hq' => ?_⟩
        rcases Int.lt_or_eq_of_le hq with h | rfl
        · exact hbelow q (by omega) hq'
        · exact hlt
      · exact ⟨i, rfl, le_rfl, hip, not_lt.mp hlt, fun q hq hq' => absurd hq (by omega)⟩

/-- A scan downwards stops no earlier than at an element that is not above the pivot. -/
theorem scanDown_spec (fuel : ℕ) {j p : ℤ} (hj : j < n) (hp : 0 ≤ p) (hpj : p ≤ j) (hstop : buf p ≤ pivot)
    (hfuel : j - p < fuel) :
    ∃ j', scanDown n buf pivot fuel j = some j' ∧ p ≤ j' ∧ j' ≤ j ∧ buf j' ≤ pivot ∧
      ∀ q, j' < q → q ≤ j → pivot < buf q := by
  induction fuel generalizing j with
  | zero =>
      rw [Nat.cast_zero] at hfuel
      omega
  | succ fuel ih =>
      rw [scanDown, get_of_lt ⟨by omega, hj⟩, Option.bind_some]
      split_ifs with hlt
      · have hne : j ≠ p := fun heq => absurd hstop (not_le.mpr (heq ▸ hlt))
        obtain ⟨j', hrun, hle, hle', hge, habove⟩ :=
          ih (j := j - 1) (by omega) (by omega) (by push_cast at hfuel; omega)
        refine ⟨j', hrun, hle, by omega, hge, fun q hq hq' => ?_⟩
        rcases Int.lt_or_eq_of_le hq' with h | rfl
        · exact habove q hq (by omega)
        · exact hlt
      · exact ⟨j, rfl, hpj, le_rfl, not_lt.mp hlt, fun q hq hq' => absurd hq (by omega)⟩

end

/-! ## The partition -/

/-- Only places from `lo` to `hi` have been exchanged. -/
def Within (lo hi : ℤ) (buf buf' : ℤ → α) : Prop :=
  ∃ σ : Equiv.Perm ℤ, buf' = buf ∘ σ ∧ ∀ p, p < lo ∨ hi < p → σ p = p

namespace Within
variable {lo hi : ℤ} {buf buf' buf'' : ℤ → α}

omit [LinearOrder α] in
theorem refl (lo hi : ℤ) (buf : ℤ → α) : Within lo hi buf buf := ⟨Equiv.refl ℤ, rfl, fun _ _ => rfl⟩

omit [LinearOrder α] in
theorem trans (h : Within lo hi buf buf') (h' : Within lo hi buf' buf'') : Within lo hi buf buf'' := by
  obtain ⟨σ, rfl, hσ⟩ := h
  obtain ⟨τ, rfl, hτ⟩ := h'
  exact ⟨τ.trans σ, rfl, fun p hp => by rw [Equiv.trans_apply, hτ p hp, hσ p hp]⟩

omit [LinearOrder α] in
theorem mono {lo' hi' : ℤ} (h : Within lo hi buf buf') (hlo : lo' ≤ lo) (hhi : hi ≤ hi') : Within lo' hi' buf buf' := by
  obtain ⟨σ, rfl, hσ⟩ := h
  exact ⟨σ, rfl, fun p hp => hσ p (by omega)⟩

omit [LinearOrder α] in
theorem swap (buf : ℤ → α) {i j : ℤ} (hil : lo ≤ i ∧ i ≤ hi) (hjl : lo ≤ j ∧ j ≤ hi) :
    Within lo hi buf (buf ∘ Equiv.swap i j) :=
  ⟨Equiv.swap i j, rfl, fun p hp => Equiv.swap_apply_of_ne_of_ne (by omega) (by omega)⟩

omit [LinearOrder α] in
/-- Every element comes from one that is in the same part of the array. -/
theorem source (h : Within lo hi buf buf') (p : ℤ) :
    ∃ q, buf' p = buf q ∧ (p < lo ∨ hi < p → q = p) ∧ (lo ≤ p ∧ p ≤ hi → lo ≤ q ∧ q ≤ hi) := by
  obtain ⟨σ, rfl, hσ⟩ := h
  refine ⟨σ p, rfl, hσ p, fun hp => ?_⟩
  by_contra hout
  have hfix := σ.injective (hσ (σ p) (by omega))
  rw [hfix] at hout
  exact hout hp

end Within

/-- What the loop over `i` and `j` keeps: smaller elements below `i`, larger ones above `j`, and one that stops each
of the two scans. -/
structure Scanning (lo hi : ℤ) (pivot : α) (buf : ℤ → α) (i j : ℤ) : Prop where
  low : lo ≤ i
  high : j ≤ hi
  below : ∀ p, lo ≤ p → p < i → buf p ≤ pivot
  above : ∀ p, j < p → p ≤ hi → pivot ≤ buf p
  up : i ≤ j → ∃ p, i ≤ p ∧ p ≤ hi ∧ pivot ≤ buf p
  down : i ≤ j → ∃ p, lo ≤ p ∧ p ≤ j ∧ buf p ≤ pivot

/-- What it leaves behind. -/
structure Partitioned (lo hi : ℤ) (pivot : α) (buf : ℤ → α) (i j : ℤ) : Prop where
  crossed : j < i
  below : ∀ p, lo ≤ p → p < i → buf p ≤ pivot
  above : ∀ p, j < p → p ≤ hi → pivot ≤ buf p

/-- The loop ends, reads inside of the array only, and moves both ends if the pivot is between them. -/
theorem partitionLoop_spec {n lo hi : ℤ} (hlo : 0 ≤ lo) (hhi : hi < n) {pivot : α} (fuel : ℕ) {buf : ℤ → α} {i j : ℤ}
    (h : Scanning lo hi pivot buf i j) (hfuel : j - i + 1 < fuel) (hpos : 0 < fuel) :
    ∃ buf' i' j', partitionLoop n pivot fuel buf i j = some (buf', i', j') ∧ Within lo hi buf buf' ∧
      Partitioned lo hi pivot buf' i' j' ∧ i ≤ i' ∧ j' ≤ j ∧
      ((∃ p, i ≤ p ∧ p ≤ j ∧ buf p = pivot) → i < i' ∧ j' < j) := by
  induction fuel generalizing buf i j with
  | zero => exact absurd hpos (Nat.lt_irrefl 0)
  | succ fuel ih =>
      rw [partitionLoop]
      rw [Nat.cast_succ] at hfuel
      by_cases hij : i ≤ j
      · rw [if_pos hij]
        obtain ⟨p, hip, hphi, hp⟩ := h.up hij
        obtain ⟨q, hloq, hqj, hq⟩ := h.down hij
        have hlow := h.low
        have hhigh := h.high
        obtain ⟨i', hup, hii', hi'p, hge, hbelow⟩ :=
          scanUp_spec (n := n) (n.toNat + 1) (hlo.trans hlow) (by omega) hip hp (by omega)
        obtain ⟨j', hdown, hqj', hj'j, hle, habove⟩ :=
          scanDown_spec (n := n) (n.toNat + 1) (by omega) (hlo.trans hloq) hqj hq (by omega)
        rw [hup, Option.bind_some, hdown, Option.bind_some]
        have hbelow' : ∀ r, lo ≤ r → r < i' → buf r ≤ pivot := by
          intro r hr hr'
          rcases Int.lt_or_le r i with hlt | hge
          · exact h.below r hr hlt
          · exact (hbelow r hge hr').le
        have habove' : ∀ r, j' < r → r ≤ hi → pivot ≤ buf r := by
          intro r hr hr'
          rcases Int.lt_or_le j r with hlt | hge
          · exact h.above r hlt hr'
          · exact (habove r hr hge).le
        by_cases hij' : i' ≤ j'
        · rw [if_pos hij']
          -- The two elements change places; each of them stops the next scan from the other side.
          have hfirst : (buf ∘ Equiv.swap i' j') i' = buf j' := by
            rw [Function.comp_apply, Equiv.swap_apply_left]
          have hsecond : (buf ∘ Equiv.swap i' j') j' = buf i' := by
            rw [Function.comp_apply, Equiv.swap_apply_right]
          have hother : ∀ r, r ≠ i' → r ≠ j' → (buf ∘ Equiv.swap i' j') r = buf r := by
            intro r hr hr'
            rw [Function.comp_apply, Equiv.swap_apply_of_ne_of_ne hr hr']
          have hnext : Scanning lo hi pivot (buf ∘ Equiv.swap i' j') (i' + 1) (j' - 1) := {
            low := by omega
            high := by omega
            below := by
              intro r hr hr'
              by_cases hri : r = i'
              · rw [hri, hfirst]
                exact hle
              · rw [hother r hri (by omega)]
                exact hbelow' r hr (by omega)
            above := by
              intro r hr hr'
              by_cases hrj : r = j'
              · rw [hrj, hsecond]
                exact hge
              · rw [hother r (by omega) hrj]
                exact habove' r (by omega) hr'
            up := fun hle' => ⟨j', by omega, by omega, by rw [hsecond]; exact hge⟩
            down := fun hle' => ⟨i', by omega, by omega, by rw [hfirst]; exact hle⟩ }
          obtain ⟨buf', a, b, hrun, hwithin, hpart, ha, hb, -⟩ := ih hnext (by omega) (by omega)
          refine ⟨buf', a, b, hrun, ?_, hpart, by omega, by omega, fun _ => by omega⟩
          exact (Within.swap buf ⟨by omega, by omega⟩ ⟨by omega, by omega⟩).trans hwithin
        · rw [if_neg hij']
          obtain ⟨fuel, rfl⟩ := Nat.exists_eq_add_one_of_ne_zero (n := fuel) (by omega)
          rw [partitionLoop, if_neg hij']
          refine ⟨buf, i', j', rfl, .refl _ _ _, ⟨by omega, hbelow', habove'⟩, hii', hj'j, ?_⟩
          rintro ⟨r, hir, hrj, rfl⟩
          exfalso
          have hr : i' ≤ r := not_lt.mp fun hlt => (hbelow r hir hlt).ne rfl
          have hr' : r ≤ j' := not_lt.mp fun hlt => (habove r hlt hrj).ne' rfl
          omega
      · rw [if_neg hij]
        refine ⟨buf, i, j, rfl, .refl _ _ _, ⟨by omega, h.below, h.above⟩, le_rfl, le_rfl, ?_⟩
        rintro ⟨r, hir, hrj, -⟩
        omega

/-! ## The selection -/

/-- The elements before `lo` are the smallest ones, and those behind `hi` the largest; `k` is between. -/
structure Narrowed (n k : ℤ) (buf : ℤ → α) (lo hi : ℤ) : Prop where
  low : 0 ≤ lo ∧ lo ≤ k
  high : k ≤ hi ∧ hi < n
  before : ∀ p q, 0 ≤ p → p < lo → lo ≤ q → q < n → buf p ≤ buf q
  behind : ∀ p q, 0 ≤ p → p ≤ hi → hi < q → q < n → buf p ≤ buf q

/-- The exchanges of a partition keep the smallest and the largest elements where they are. -/
theorem Narrowed.within {n k lo hi : ℤ} {buf buf' : ℤ → α} (h : Narrowed n k buf lo hi)
    (hw : Within lo hi buf buf') : Narrowed n k buf' lo hi := by
  refine ⟨h.low, h.high, fun p q hp hplo hq hqn => ?_, fun p q hp hphi hq hqn => ?_⟩
  · obtain ⟨p', hp', hfix, -⟩ := hw.source p
    obtain ⟨q', hq', hfix', hin⟩ := hw.source q
    obtain rfl := hfix (.inl hplo)
    rw [hp', hq']
    have hhigh := h.high
    by_cases hqhi : hi < q
    · rw [hfix' (.inr hqhi)]
      exact h.before p' q hp hplo hq hqn
    · have hq'' := hin (by omega)
      exact h.before p' q' hp hplo hq''.1 (by omega)
  · obtain ⟨p', hp', hfix, hin⟩ := hw.source p
    obtain ⟨q', hq', hfix', -⟩ := hw.source q
    obtain rfl := hfix' (.inr hq)
    rw [hp', hq']
    have hlow := h.low
    by_cases hplo : p < lo
    · rw [hfix (.inl hplo)]
      exact h.behind p q' hp hphi hq hqn
    · have hp'' := hin (by omega)
      exact h.behind p' q' (by omega) hp''.2 hq hqn

/-- The element at `k` is where it belongs. -/
def Placed (n k : ℤ) (buf : ℤ → α) : Prop :=
  (∀ p, 0 ≤ p → p < k → buf p ≤ buf k) ∧ ∀ p, k < p → p < n → buf k ≤ buf p

/-- The loop ends with the element at its place, and has exchanged elements only. -/
theorem quickselect_spec {n k : ℤ} (fuel : ℕ) {buf : ℤ → α} {lo hi : ℤ} (h : Narrowed n k buf lo hi)
    (hfuel : hi - lo < fuel) :
    ∃ buf', quickselect n k fuel buf lo hi = some (buf', buf' k) ∧ Within 0 (n - 1) buf buf' ∧ Placed n k buf' := by
  induction fuel generalizing buf lo hi with
  | zero =>
      have hlow := h.low
      have hhigh := h.high
      rw [Nat.cast_zero] at hfuel
      omega
  | succ fuel ih =>
      obtain ⟨hlo, hlok⟩ := h.low
      obtain ⟨hkhi, hhi⟩ := h.high
      rw [Nat.cast_succ] at hfuel
      have hget : ∀ buf : ℤ → α, get n buf k = some (buf k) := fun buf => get_of_lt ⟨by omega, by omega⟩
      rw [quickselect]
      by_cases hlt : lo < hi
      · have hmid : lo ≤ (lo + hi) / 2 ∧ (lo + hi) / 2 ≤ hi := by omega
        have hscan : Scanning lo hi (buf ((lo + hi) / 2)) buf lo hi := {
          low := le_rfl
          high := le_rfl
          below := fun p hp hp' => absurd hp (by omega)
          above := fun p hp hp' => absurd hp (by omega)
          up := fun _ => ⟨(lo + hi) / 2, hmid.1, hmid.2, le_rfl⟩
          down := fun _ => ⟨(lo + hi) / 2, hmid.1, hmid.2, le_rfl⟩ }
        obtain ⟨buf', i, j, hrun, hwithin, hpart, -, -, hmove⟩ :=
          partitionLoop_spec hlo hhi (n.toNat + 2) hscan (by omega) (by omega)
        obtain ⟨hi', hj'⟩ := hmove ⟨(lo + hi) / 2, hmid.1, hmid.2, rfl⟩
        have hcrossed := hpart.crossed
        have hkeep := h.within hwithin
        have hall := hwithin.mono hlo (Int.le_sub_one_of_lt hhi)
        rw [if_pos hlt, get_of_lt ⟨by omega, by omega⟩, Option.bind_some, hrun, Option.bind_some]
        dsimp only
        by_cases hkj : k ≤ j
        · have hnext : Narrowed n k buf' lo j := by
            refine ⟨h.low, ⟨hkj, by omega⟩, hkeep.before, fun p q hp hpj hq hqn => ?_⟩
            rcases Int.lt_or_le p lo with hplo | hplo
            · exact hkeep.before p q hp hplo (by omega) hqn
            · rcases Int.lt_or_le hi q with hqhi | hqhi
              · exact hkeep.behind p q hp (by omega) hqhi hqn
              · exact (hpart.below p hplo (by omega)).trans (hpart.above q hq hqhi)
          obtain ⟨out, hout, hwithin', hplaced⟩ := ih hnext (by omega)
          rw [if_pos hkj, hout]
          exact ⟨out, rfl, hall.trans hwithin', hplaced⟩
        · rw [if_neg hkj]
          by_cases hik : i ≤ k
          · have hnext : Narrowed n k buf' i hi := by
              refine ⟨⟨by omega, hik⟩, h.high, fun p q hp hpi hq hqn => ?_, hkeep.behind⟩
              rcases Int.lt_or_le p lo with hplo | hplo
              · exact hkeep.before p q hp hplo (by omega) hqn
              · rcases Int.lt_or_le hi q with hqhi | hqhi
                · exact hkeep.behind p q hp (by omega) hqhi hqn
                · exact (hpart.below p hplo hpi).trans (hpart.above q (by omega) hqhi)
            obtain ⟨out, hout, hwithin', hplaced⟩ := ih hnext (by omega)
            rw [if_pos hik, hout]
            exact ⟨out, rfl, hall.trans hwithin', hplaced⟩
          · -- The element at `k` is between the ends, and equal to the pivot.
            rw [if_neg hik, hget]
            refine ⟨buf', rfl, hall, fun p hp hpk => ?_, fun p hpk hpn => ?_⟩
            · rcases Int.lt_or_le p lo with hplo | hplo
              · exact hkeep.before p k hp hplo hlok (by omega)
              · exact (hpart.below p hplo (by omega)).trans (hpart.above k (by omega) hkhi)
            · rcases Int.lt_or_le hi p with hphi | hphi
              · exact hkeep.behind k p (by omega) hkhi hphi hpn
              · exact (hpart.below k hlok (by omega)).trans (hpart.above p (by omega) hphi)
      · obtain rfl : lo = k := by omega
        obtain rfl : hi = lo := by omega
        rw [if_neg hlt, hget]
        refine ⟨buf, rfl, .refl _ _ _, fun p hp hpk => h.before p hi hp hpk le_rfl hhi, fun p hpk hpn => ?_⟩
        exact h.behind hi p (by omega) le_rfl hpk hpn

/-! ## The sorted array -/

/-- The elements of an array. -/
def elements (n : ℤ) (buf : ℤ → α) : List α := (List.range n.toNat).map fun i : ℕ => buf i

/-- The element that the sorted array has at `k`. -/
def orderStat (n k : ℤ) (buf : ℤ → α) : Option α := ((elements n buf).insertionSort (· ≤ ·))[k.toNat]?

omit [LinearOrder α] in
theorem Within.perm {n : ℤ} {buf buf' : ℤ → α} (h : Within 0 (n - 1) buf buf') :
    (elements n buf').Perm (elements n buf) := by
  obtain ⟨σ, rfl, hσ⟩ := h
  have hnodup : ((List.range n.toNat).map fun i : ℕ => (i : ℤ)).Nodup :=
    List.nodup_range.map fun _ _ h => Int.ofNat.inj h
  have hmem : ∀ p, p ∈ (List.range n.toNat).map (fun i : ℕ => (i : ℤ)) ↔ 0 ≤ p ∧ p ≤ n - 1 := by
    intro p
    rw [List.mem_map]
    constructor
    · rintro ⟨i, hi, rfl⟩
      rw [List.mem_range] at hi
      omega
    · rintro ⟨hp, hpn⟩
      exact ⟨p.toNat, List.mem_range.mpr (by omega), by omega⟩
  -- The exchange maps the places of the array to each other.
  have hplaces : (((List.range n.toNat).map fun i : ℕ => (i : ℤ)).map σ).Perm
      ((List.range n.toNat).map fun i : ℕ => (i : ℤ)) := by
    rw [List.perm_ext_iff_of_nodup (hnodup.map σ.injective) hnodup]
    intro p
    rw [List.mem_map]
    constructor
    · rintro ⟨q, hq, rfl⟩
      rw [hmem] at hq ⊢
      by_contra hout
      rw [σ.injective (hσ (σ q) (by omega))] at hout
      exact hout hq
    · intro hp
      refine ⟨σ.symm p, ?_, σ.apply_symm_apply p⟩
      rw [hmem] at hp ⊢
      by_contra hout
      have hfix := hσ (σ.symm p) (by omega)
      rw [σ.apply_symm_apply] at hfix
      rw [← hfix] at hout
      exact hout hp
  have hmap := hplaces.map buf
  rw [List.map_map, List.map_map, List.map_map] at hmap
  exact hmap

theorem orderStat_of_placed {n k : ℤ} {buf : ℤ → α} (hk : 0 ≤ k ∧ k < n) (h : Placed n k buf) :
    orderStat n k buf = some (buf k) := by
  have hrange : List.range n.toNat = List.range k.toNat ++ k.toNat :: (List.range (n.toNat - k.toNat - 1)).map
      (k.toNat + 1 + ·) := by
    have hsum : n.toNat = k.toNat + 1 + (n.toNat - k.toNat - 1) := by omega
    conv_lhs => rw [hsum, List.range_add, List.range_succ, List.append_assoc, List.singleton_append]
  have hself : ((k.toNat : ℕ) : ℤ) = k := by omega
  have hsplit : elements n buf = elements k buf ++
      buf k :: ((List.range (n.toNat - k.toNat - 1)).map (k.toNat + 1 + ·)).map fun i : ℕ => buf i := by
    rw [elements, hrange, List.map_append, List.map_cons, hself]
    rfl
  set rest := ((List.range (n.toNat - k.toNat - 1)).map (k.toNat + 1 + ·)).map fun i : ℕ => buf i with hrest
  have hbefore : ∀ x ∈ elements k buf, x ≤ buf k := by
    intro x hx
    obtain ⟨i, hi, rfl⟩ := List.mem_map.mp hx
    rw [List.mem_range] at hi
    exact h.1 i (by omega) (by omega)
  have hbehind : ∀ x ∈ rest, buf k ≤ x := by
    intro x hx
    rw [hrest, List.map_map] at hx
    obtain ⟨i, hi, rfl⟩ := List.mem_map.mp hx
    rw [List.mem_range] at hi
    have hplace : k < ((k.toNat + 1 + i : ℕ) : ℤ) ∧ ((k.toNat + 1 + i : ℕ) : ℤ) < n := by omega
    exact h.2 _ hplace.1 hplace.2
  have hsorted : (elements n buf).insertionSort (· ≤ ·) =
      (elements k buf).insertionSort (· ≤ ·) ++ buf k :: rest.insertionSort (· ≤ ·) := by
    refine List.Perm.eq_of_pairwise' (r := (· ≤ ·)) (List.pairwise_insertionSort _ _) ?_ ?_
    · rw [List.pairwise_append, List.pairwise_cons]
      refine ⟨List.pairwise_insertionSort _ _, ⟨fun x hx => ?_, List.pairwise_insertionSort _ _⟩, fun x hx y hy => ?_⟩
      · exact hbehind x ((List.perm_insertionSort _ _).mem_iff.mp hx)
      · have hxk := hbefore x ((List.perm_insertionSort _ _).mem_iff.mp hx)
        rcases List.mem_cons.mp hy with rfl | hy
        · exact hxk
        · exact hxk.trans (hbehind y ((List.perm_insertionSort _ _).mem_iff.mp hy))
    · rw [hsplit]
      refine (List.perm_insertionSort _ _).trans ?_
      exact ((List.perm_insertionSort _ _).symm).append (((List.perm_insertionSort _ _).symm).cons _)
  have hlen : ((elements k buf).insertionSort (· ≤ ·)).length = k.toNat := by
    rw [(List.perm_insertionSort _ _).length_eq, elements, List.length_map, List.length_range]
  rw [orderStat, hsorted, List.getElem?_append_right hlen.le, hlen, Nat.sub_self]
  rfl

/-- **The median** is the element in the middle of the sorted array; no place outside of the array is read or
changed, and the elements are the same as before. -/
theorem medianInplace_spec [Zero α] (buf : ℤ → α) {n : ℤ} (hn : 0 < n) :
    ∃ buf' v, medianInplace buf n = some (buf', v) ∧ orderStat n (n / 2) buf = some v ∧
      (elements n buf').Perm (elements n buf) ∧ ∀ p, p < 0 ∨ n ≤ p → buf' p = buf p := by
  have hstart : Narrowed n (n / 2) buf 0 (n - 1) :=
    ⟨by omega, by omega, fun p q hp hp' => absurd hp (by omega), fun p q _ _ hq hq' => absurd hq (by omega)⟩
  obtain ⟨buf', hrun, hwithin, hplaced⟩ := quickselect_spec (n.toNat + 1) hstart (by omega)
  have hstat := orderStat_of_placed (by omega) hplaced
  refine ⟨buf', buf' (n / 2), ?_, ?_, hwithin.perm, fun p hp => ?_⟩
  · rw [medianInplace, if_neg (by omega)]
    exact hrun
  · rw [← hstat, orderStat, orderStat]
    congr 1
    exact List.Perm.eq_of_pairwise' (r := (· ≤ ·)) (List.pairwise_insertionSort _ _) (List.pairwise_insertionSort _ _)
      (((List.perm_insertionSort _ _).trans hwithin.perm.symm).trans (List.perm_insertionSort _ _).symm)
  · obtain ⟨q, hq, hfix, -⟩ := hwithin.source p
    rw [hq, hfix (by omega)]

theorem medianInplace_spec_three : ∃ (buf' : ℤ → ℤ) (v : ℤ), medianInplace (fun i => 5 - i) 3 = some (buf', v) ∧
    orderStat 3 (3 / 2) (fun i : ℤ => 5 - i) = some v ∧ (elements 3 buf').Perm (elements 3 fun i => 5 - i) ∧
      ∀ p, p < 0 ∨ 3 ≤ p → buf' p = 5 - p :=
  medianInplace_spec (fun i : ℤ => 5 - i) (by decide)

end SimpleSatOps.Quickselect
