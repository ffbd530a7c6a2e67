import Mathlib.Data.List.GetD
import Mathlib.Tactic
import SimpleSatOps.Orbit.Oem

/-!
# Interpolation in an ephemeris (`oem.c`)

* `bracketLoop`, `bracketLeft`, `hermite`, `oemSampleAt` : the search for the segment and the polynomial on it;
* `Ordered` : the times of the samples increase;
* `Brackets`, `Held` : the segment a time belongs to, and what is due there;
* `bracketLoop_spec` : the binary search finds the segment;
* `hermite_zero`, `hermite_one` : the ends of a segment;
* `oemSampleAt_of_le`, `oemSampleAt_of_lt` : a time from the first sample on, and one in front of it;
* `oemSampleAt_held_iff` : when what is due is returned.
-/

namespace SimpleSatOps.Oem

/-! ## The source -/

def Table.sample (t : Table) (i : ℕ) : Sample := t.samples.getD i ⟨0, 0, 0⟩

/-- The loop of `bracket_left` -/
def bracketLoop (t : Table) (julUtc : ℚ) (lo hi : ℕ) : ℕ :=
  if hi - lo > 1 then
    let mid := (lo + hi) / 2
    if (t.sample mid).julUtc ≤ julUtc then bracketLoop t julUtc mid hi else bracketLoop t julUtc lo mid
  else lo
termination_by hi - lo

/-- `bracket_left` -/
def bracketLeft (t : Table) (julUtc : ℚ) : ℤ :=
  if t.samples.length = 0 then -1
  else if julUtc < (t.sample 0).julUtc then -1
  else if julUtc ≥ (t.sample (t.samples.length - 1)).julUtc then (t.samples.length - 1 : ℕ)
  else bracketLoop t julUtc 0 (t.samples.length - 1)

/-- `u`, kept between 0 and 1. -/
def clampUnit (u : ℚ) : ℚ :=
  let u := if u < 0 then 0 else u
  if u > 1 then 1 else u

/-- The cubic Hermite polynomial of two samples and its derivative. -/
def hermite (a b : Sample) (u : ℚ) : (Fin 3 → ℚ) × (Fin 3 → ℚ) :=
  let dtSec := (b.julUtc - a.julUtc) * 86400
  let u2 := u * u
  let u3 := u2 * u
  let h00 := 2 * u3 - 3 * u2 + 1
  let h10 := u3 - 2 * u2 + u
  let h01 := -2 * u3 + 3 * u2
  let h11 := u3 - u2
  let dh00 := 6 * u2 - 6 * u
  let dh10 := 3 * u2 - 4 * u + 1
  let dh01 := -6 * u2 + 6 * u
  let dh11 := 3 * u2 - 2 * u
  (fun k => h00 * a.rEcef k + h10 * dtSec * a.vEcef k + h01 * b.rEcef k + h11 * dtSec * b.vEcef k,
    fun k => (dh00 * a.rEcef k + dh10 * dtSec * a.vEcef k + dh01 * b.rEcef k + dh11 * dtSec * b.vEcef k) / dtSec)

/-- A pair of samples at a time. -/
def onSegment (t : Table) (i : ℕ) (julUtc : ℚ) : (Fin 3 → ℚ) × (Fin 3 → ℚ) :=
  let a := t.sample i
  let b := t.sample (i + 1)
  hermite a b (clampUnit ((julUtc - a.julUtc) / (b.julUtc - a.julUtc)))

-- `itrf_to_eci`, `kepler_propagate_eci` and `eci_to_itrf`, from an anchor to a time outside the window
variable (extrapolate : Sample → ℚ → Option ((Fin 3 → ℚ) × (Fin 3 → ℚ)))

/-- `oem_sample_at` -/
def oemSampleAt (t : Table) (julUtc : ℚ) : Option ((Fin 3 → ℚ) × (Fin 3 → ℚ)) :=
  if t.samples.length < 2 then none
  else if julUtc < t.startJulUtc - 1 / 10 ^ 9 ∨ julUtc > t.stopJulUtc + 1 / 10 ^ 9 then
    extrapolate (if julUtc > t.stopJulUtc then t.sample (t.samples.length - 1) else t.sample 0) julUtc
  else
    let i := bracketLeft t julUtc
    let i := if i < 0 ∨ i.toNat ≥ t.samples.length - 1 then t.samples.length - 2 else i.toNat
    if (t.sample (i + 1)).julUtc - (t.sample i).julUtc ≤ 0 then none else some (onSegment t i julUtc)

/-! ## The segments -/

/-- The times of the samples increase. -/
def Ordered (t : Table) : Prop := t.samples.Pairwise fun a b => a.julUtc < b.julUtc

instance (t : Table) : Decidable (Ordered t) := inferInstanceAs (Decidable (List.Pairwise _ _))

/-- The segment of a time: the first one in front of all samples, the last one behind them. -/
def Brackets (t : Table) (julUtc : ℚ) (i : ℕ) : Prop :=
  i + 1 < t.samples.length ∧
    ((t.sample i).julUtc ≤ julUtc ∧ julUtc < (t.sample (i + 1)).julUtc ∨ i = 0 ∧ julUtc < (t.sample 0).julUtc ∨
      i + 2 = t.samples.length ∧ (t.sample (i + 1)).julUtc ≤ julUtc)

/-- What is due at a time. -/
def Held (t : Table) (julUtc : ℚ) (out : (Fin 3 → ℚ) × (Fin 3 → ℚ)) : Prop :=
  ∃ i, Brackets t julUtc i ∧ out = onSegment t i julUtc

variable {t : Table} {julUtc : ℚ}

theorem Ordered.lt (h : Ordered t) {i j : ℕ} (hij : i < j) (hj : j < t.samples.length) :
    (t.sample i).julUtc < (t.sample j).julUtc := by
  rw [Table.sample, Table.sample, List.getD_eq_getElem _ _ (hij.trans hj), List.getD_eq_getElem _ _ hj]
  exact List.pairwise_iff_getElem.mp h i j (hij.trans hj) hj hij

theorem Ordered.le (h : Ordered t) {i j : ℕ} (hij : i ≤ j) (hj : j < t.samples.length) :
    (t.sample i).julUtc ≤ (t.sample j).julUtc := by
  rcases Nat.lt_or_eq_of_le hij with hlt | rfl
  · exact (h.lt hlt hj).le
  · exact le_rfl

theorem bracketLoop_spec {lo hi : ℕ} (hlt : lo < hi) (hlo : (t.sample lo).julUtc ≤ julUtc)
    (hhi : julUtc < (t.sample hi).julUtc) :
    bracketLoop t julUtc lo hi < hi ∧ (t.sample (bracketLoop t julUtc lo hi)).julUtc ≤ julUtc ∧
      julUtc < (t.sample (bracketLoop t julUtc lo hi + 1)).julUtc := by
  induction lo, hi using bracketLoop.induct t julUtc with
  | case1 lo hi hgap mid hmid ih =>
      rw [bracketLoop, if_pos hgap, if_pos hmid]
      exact ih (by omega) hmid hhi
  | case2 lo hi hgap mid hmid ih =>
      rw [bracketLoop, if_pos hgap, if_neg hmid]
      obtain ⟨hlt', hle, hgt⟩ := ih (by omega) hlo (not_le.mp hmid)
      have hmid' : (lo + hi) / 2 < hi := by omega
      exact ⟨hlt'.trans hmid', hle, hgt⟩
  | case3 lo hi hgap =>
      obtain rfl : hi = lo + 1 := by omega
      rw [bracketLoop, if_neg hgap]
      exact ⟨hlt, hlo, hhi⟩

theorem Brackets.not_lt (h : Ordered t) {i j : ℕ} (hi : Brackets t julUtc i) (hj : Brackets t julUtc j) : ¬i < j := by
  intro hij
  obtain ⟨-, hi⟩ := hi
  obtain ⟨hlen, hj⟩ := hj
  have hnext := h.le (Nat.succ_le_of_lt hij) (by omega)
  have hj1 := h.lt (Nat.lt_succ_self j) hlen
  have hfirst := h.lt (Nat.zero_lt_of_lt hij) (by omega)
  have hbefore : julUtc < (t.sample (i + 1)).julUtc := by
    rcases hi with ⟨-, hi⟩ | ⟨rfl, hi⟩ | ⟨hi, -⟩
    · exact hi
    · exact hi.trans (h.lt (Nat.lt_succ_self 0) (by omega))
    · omega
  have hbehind : (t.sample j).julUtc ≤ julUtc := by
    rcases hj with ⟨hj, -⟩ | ⟨hj, -⟩ | ⟨-, hj⟩
    · exact hj
    · omega
    · exact hj1.le.trans hj
  exact absurd (hnext.trans_lt (hbehind.trans_lt hbefore)) (lt_irrefl _)

/-- A time belongs to one segment. -/
theorem Brackets.unique (h : Ordered t) {i j : ℕ} (hi : Brackets t julUtc i) (hj : Brackets t julUtc j) : i = j := by
  apply le_antisymm
  · exact Nat.le_of_not_lt (hj.not_lt h hi)
  · exact Nat.le_of_not_lt (hi.not_lt h hj)

/-! ## The polynomial -/

theorem hermite_zero {a b : Sample} (h : a.julUtc < b.julUtc) : hermite a b 0 = (a.rEcef, a.vEcef) := by
  have hne : (b.julUtc - a.julUtc) * 86400 ≠ 0 := mul_ne_zero (sub_ne_zero.mpr h.ne') (by norm_num)
  rw [hermite, Prod.mk.injEq]
  constructor
  · funext k
    ring
  · funext k
    rw [div_eq_iff hne]
    ring

theorem hermite_one {a b : Sample} (h : a.julUtc < b.julUtc) : hermite a b 1 = (b.rEcef, b.vEcef) := by
  have hne : (b.julUtc - a.julUtc) * 86400 ≠ 0 := mul_ne_zero (sub_ne_zero.mpr h.ne') (by norm_num)
  rw [hermite, Prod.mk.injEq]
  constructor
  · funext k
    ring
  · funext k
    rw [div_eq_iff hne]
    ring

theorem clampUnit_of_nonpos {u : ℚ} (h : u ≤ 0) : clampUnit u = 0 := by
  have hu : (if u < 0 then 0 else u) = 0 := by split_ifs <;> linarith
  rw [clampUnit, hu]
  rfl

theorem clampUnit_of_one_le {u : ℚ} (h : 1 ≤ u) : clampUnit u = 1 := by
  have hu : (if u < 0 then 0 else u) = u := if_neg (by linarith)
  rw [clampUnit, hu]
  split_ifs <;> linarith

/-- Up to its start a segment is held there. -/
theorem onSegment_of_le (h : Ordered t) {i : ℕ} (hi : i + 1 < t.samples.length) (hle : julUtc ≤ (t.sample i).julUtc) :
    onSegment t i julUtc = ((t.sample i).rEcef, (t.sample i).vEcef) := by
  have hlt := h.lt (Nat.lt_succ_self i) hi
  rw [onSegment, clampUnit_of_nonpos (div_nonpos_of_nonpos_of_nonneg (by linarith) (by linarith))]
  exact hermite_zero hlt

/-- From its end on a segment is held there. -/
theorem onSegment_of_ge (h : Ordered t) {i : ℕ} (hi : i + 1 < t.samples.length)
    (hge : (t.sample (i + 1)).julUtc ≤ julUtc) :
    onSegment t i julUtc = ((t.sample (i + 1)).rEcef, (t.sample (i + 1)).vEcef) := by
  have hlt := h.lt (Nat.lt_succ_self i) hi
  rw [onSegment, clampUnit_of_one_le ((one_le_div (by linarith)).mpr (by linarith))]
  exact hermite_one hlt

/-! ## The search -/

/-- The segment the search gives. -/
theorem oemSampleAt_eq (h : Ordered t) (hlen : 2 ≤ t.samples.length) (hstart : t.startJulUtc ≤ julUtc)
    (hstop : julUtc ≤ t.stopJulUtc) {i : ℕ} (hi : i + 1 < t.samples.length)
    (hbracket : (if bracketLeft t julUtc < 0 ∨ (bracketLeft t julUtc).toNat ≥ t.samples.length - 1 then
      t.samples.length - 2 else (bracketLeft t julUtc).toNat) = i) :
    oemSampleAt extrapolate t julUtc = some (onSegment t i julUtc) := by
  have hin : ¬(julUtc < t.startJulUtc - 1 / 10 ^ 9 ∨ julUtc > t.stopJulUtc + 1 / 10 ^ 9) := by
    rintro (hlo | hhi)
    · linarith
    · linarith
  have hlt := h.lt (Nat.lt_succ_self i) hi
  unfold oemSampleAt
  rw [if_neg (by omega), if_neg hin]
  dsimp only
  rw [hbracket, if_neg (by linarith)]

/-- From the first sample on the segment of the time is taken. -/
theorem oemSampleAt_of_le (h : Ordered t) (hlen : 2 ≤ t.samples.length) (hstart : t.startJulUtc ≤ julUtc)
    (hstop : julUtc ≤ t.stopJulUtc) (hle : (t.sample 0).julUtc ≤ julUtc) :
    ∃ i, Brackets t julUtc i ∧ oemSampleAt extrapolate t julUtc = some (onSegment t i julUtc) := by
  by_cases hlast : julUtc ≥ (t.sample (t.samples.length - 1)).julUtc
  · have hbracket : bracketLeft t julUtc = (t.samples.length - 1 : ℕ) := by
      rw [bracketLeft, if_neg (by omega), if_neg (by linarith), if_pos hlast]
    refine ⟨t.samples.length - 2, ⟨by omega, .inr (.inr ⟨by omega, ?_⟩)⟩, ?_⟩
    · have heq : t.samples.length - 2 + 1 = t.samples.length - 1 := by omega
      rwa [heq]
    · apply oemSampleAt_eq extrapolate h hlen hstart hstop (by omega)
      rw [hbracket, if_pos (.inr le_rfl)]
  · have hbracket : bracketLeft t julUtc = bracketLoop t julUtc 0 (t.samples.length - 1) := by
      rw [bracketLeft, if_neg (by omega), if_neg (by linarith), if_neg hlast]
    obtain ⟨hlt, hlo, hhi⟩ := bracketLoop_spec (t := t) (by omega) hle (not_le.mp hlast)
    refine ⟨bracketLoop t julUtc 0 (t.samples.length - 1), ⟨by omega, .inl ⟨hlo, hhi⟩⟩, ?_⟩
    apply oemSampleAt_eq extrapolate h hlen hstart hstop (by omega)
    rw [hbracket, if_neg (by omega)]
    rfl

/-- In front of the first sample the last segment is taken, at its start. -/
theorem oemSampleAt_of_lt (h : Ordered t) (hlen : 2 ≤ t.samples.length) (hstart : t.startJulUtc ≤ julUtc)
    (hstop : julUtc ≤ t.stopJulUtc) (hlt : julUtc < (t.sample 0).julUtc) :
    oemSampleAt extrapolate t julUtc =
      some ((t.sample (t.samples.length - 2)).rEcef, (t.sample (t.samples.length - 2)).vEcef) := by
  have hbracket : bracketLeft t julUtc = -1 := by
    rw [bracketLeft, if_neg (by omega), if_pos hlt]
  have hfirst := h.le (Nat.zero_le (t.samples.length - 2)) (by omega)
  rw [← onSegment_of_le h (by omega) (hlt.le.trans hfirst)]
  apply oemSampleAt_eq extrapolate h hlen hstart hstop (by omega)
  rw [hbracket, if_pos (.inl (by decide))]

/-- At the time of a sample the sample is returned. -/
theorem oemSampleAt_sample (h : Ordered t) (hlen : 2 ≤ t.samples.length) {i : ℕ} (hi : i < t.samples.length)
    (hstart : t.startJulUtc ≤ (t.sample i).julUtc) (hstop : (t.sample i).julUtc ≤ t.stopJulUtc) :
    oemSampleAt extrapolate t (t.sample i).julUtc = some ((t.sample i).rEcef, (t.sample i).vEcef) := by
  obtain ⟨j, hj, hout⟩ := oemSampleAt_of_le extrapolate h hlen hstart hstop (h.le (Nat.zero_le i) hi)
  rw [hout]
  by_cases hlast : i + 1 < t.samples.length
  · have hown : Brackets t (t.sample i).julUtc i := ⟨hlast, .inl ⟨le_rfl, h.lt (Nat.lt_succ_self i) hlast⟩⟩
    rw [hj.unique h hown, onSegment_of_le h hlast le_rfl]
  · obtain ⟨k, rfl⟩ : ∃ k, i = k + 1 := ⟨i - 1, by omega⟩
    have hown : Brackets t (t.sample (k + 1)).julUtc k := ⟨hi, .inr (.inr ⟨by omega, le_rfl⟩)⟩
    rw [hj.unique h hown, onSegment_of_ge h hi le_rfl]

/-- Two segments that follow each other agree at the sample they share. -/
theorem onSegment_succ (h : Ordered t) {i : ℕ} (hi : i + 2 < t.samples.length) :
    onSegment t i (t.sample (i + 1)).julUtc = onSegment t (i + 1) (t.sample (i + 1)).julUtc := by
  rw [onSegment_of_ge h (by omega) le_rfl, onSegment_of_le h hi le_rfl]

/-- **What is due at a time of the window is returned exactly when the time is not in front of the first sample, or the
last sample but one is where the first one is. The samples themselves are always returned, and the segments agree.** -/
theorem oemSampleAt_held_iff {document : List UInt8} (hparse : oemParse document = some t) (h : Ordered t) :
    (∀ julUtc, t.startJulUtc ≤ julUtc → julUtc ≤ t.stopJulUtc →
      ((∃ out, oemSampleAt extrapolate t julUtc = some out ∧ Held t julUtc out) ↔
        (t.sample 0).julUtc ≤ julUtc ∨ (t.sample (t.samples.length - 2)).rEcef = (t.sample 0).rEcef ∧
          (t.sample (t.samples.length - 2)).vEcef = (t.sample 0).vEcef)) ∧
    (∀ i < t.samples.length, t.startJulUtc ≤ (t.sample i).julUtc → (t.sample i).julUtc ≤ t.stopJulUtc →
      oemSampleAt extrapolate t (t.sample i).julUtc = some ((t.sample i).rEcef, (t.sample i).vEcef)) ∧
    ∀ i, i + 2 < t.samples.length →
      onSegment t i (t.sample (i + 1)).julUtc = onSegment t (i + 1) (t.sample (i + 1)).julUtc := by
  have hlen := two_le_of_oemParse hparse
  refine ⟨fun julUtc hstart hstop => ?_, fun i hi => oemSampleAt_sample extrapolate h hlen hi,
    fun i hi => onSegment_succ h hi⟩
  by_cases hle : (t.sample 0).julUtc ≤ julUtc
  · obtain ⟨i, hi, hout⟩ := oemSampleAt_of_le extrapolate h hlen hstart hstop hle
    exact iff_of_true ⟨_, hout, i, hi, rfl⟩ (.inl hle)
  · have hlt := not_le.mp hle
    have hown : Brackets t julUtc 0 := ⟨by omega, .inr (.inl ⟨rfl, hlt⟩)⟩
    have hfirst := onSegment_of_le h hown.1 hlt.le
    rw [oemSampleAt_of_lt extrapolate h hlen hstart hstop hlt]
    constructor
    · rintro ⟨out, hout, i, hi, rfl⟩
      rw [hi.unique h hown, hfirst, Option.some.injEq, Prod.mk.injEq] at hout
      exact .inr hout
    · rintro (hle' | ⟨hr, hv⟩)
      · exact absurd hle' hle
      · refine ⟨_, rfl, 0, hown, ?_⟩
        rw [hfirst, hr, hv]

/-! ## A window that starts early -/

/-- The window starts a minute before the samples do. -/
def early : List UInt8 := text "META_START
START_TIME = 2000-01-01T11:59:00
META_STOP
2000-01-01T12:00:00 7000 0 0 0 7.5 0
2000-01-01T12:01:00 6985 449 0 -0.5 7.4 0
2000-01-01T12:02:00 6940 897 0 -1 7.4 0
"

def earlyTable : Table where
  objectName := []
  objectId := []
  refFrame := []
  timeSystem := []
  startJulUtc := 2451545 - 1 / 1440
  stopJulUtc := 2451545 + 2 / 1440
  samples := [⟨2451545, ![7000, 0, 0], ![0, 15 / 2, 0]⟩,
    ⟨2451545 + 1 / 1440, ![6985, 449, 0], ![-1 / 2, 37 / 5, 0]⟩,
    ⟨2451545 + 2 / 1440, ![6940, 897, 0], ![-1, 37 / 5, 0]⟩]

theorem oemParse_early : oemParse early = some earlyTable := by decide +kernel

theorem ordered_early : Ordered earlyTable := by decide +kernel

/-- In the minute before the first sample the second one is returned. -/
theorem oemSampleAt_early : oemParse early = some earlyTable ∧ Ordered earlyTable ∧
    earlyTable.startJulUtc ≤ 2451545 - 1 / 1440 ∧ 2451545 - 1 / 1440 ≤ earlyTable.stopJulUtc ∧
    oemSampleAt (fun _ _ => none) earlyTable (2451545 - 1 / 1440) = some (![6985, 449, 0], ![-1 / 2, 37 / 5, 0]) ∧
    ¬∃ out, oemSampleAt (fun _ _ => none) earlyTable (2451545 - 1 / 1440) = some out ∧
      Held earlyTable (2451545 - 1 / 1440) out := by
  have hstop : 2451545 - 1 / 1440 ≤ earlyTable.stopJulUtc := by decide +kernel
  have hlt : 2451545 - 1 / 1440 < (earlyTable.sample 0).julUtc := by decide +kernel
  have hout : oemSampleAt (fun _ _ => none) earlyTable (2451545 - 1 / 1440) =
      some ((earlyTable.sample 1).rEcef, (earlyTable.sample 1).vEcef) :=
    oemSampleAt_of_lt (fun _ _ => none) ordered_early (by decide) le_rfl hstop hlt
  refine ⟨oemParse_early, ordered_early, le_rfl, hstop, hout, ?_⟩
  rintro ⟨out, hout', i, hi, rfl⟩
  have hown : Brackets earlyTable (2451545 - 1 / 1440) 0 := ⟨by decide, .inr (.inl ⟨rfl, hlt⟩)⟩
  rw [hi.unique ordered_early hown, onSegment_of_le ordered_early hown.1 hlt.le, hout] at hout'
  exact absurd hout' (by decide +kernel)

theorem oemSampleAt_held_iff_early : ∃ out, oemSampleAt (fun _ _ => none) earlyTable (2451545 + 1 / 2880) = some out ∧
    Held earlyTable (2451545 + 1 / 2880) out :=
  ((oemSampleAt_held_iff (fun _ _ => none) oemParse_early ordered_early).1 _ (by decide +kernel)
    (by decide +kernel)).mpr (.inl (by decide +kernel))

end SimpleSatOps.Oem
