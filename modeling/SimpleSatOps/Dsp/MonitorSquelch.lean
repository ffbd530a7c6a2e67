import Mathlib.Algebra.Order.Floor.Semiring
import Mathlib.Data.Rat.Floor
import Mathlib.Tactic
import SimpleSatOps.Lib.Machine

/-!
# The monitor squelch (`monitor_squelch.c`)

* `MonitorSquelch`, `monitorSquelchInit` : the gate, its hold counter and its carrier lockout;
* `step`, `monitorSquelchProcess` : one sample, and a block of them;
* `Call`, `Call.run` : the calls, in any order;
* `Inv` : what holds between two samples;
* `LockoutSound` : an engaged lockout shuts the gate until it is released;
* `lockout_sound` : it does so in every mode but off, in which the gate is always open.

Levels are exact numbers; they come out of the filters, and are an input here.
-/

namespace SimpleSatOps.Squelch

/-! ## The source -/

/-- `msq_mode_t` -/
inductive Mode
  | off | autoBootstrapping | autoEngaged | fixed
deriving DecidableEq

/-- `monitor_squelch_t` behind the filters. -/
structure MonitorSquelch (K : Type*) where
  mode : Mode
  ratioDb : K
  threshDb : K
  holdSamplesRemaining : ℕ
  holdDuration : ℕ
  aboveThreshSamples : ℕ
  belowThreshSamples : ℕ
  lockoutActive : Bool
  carrierLockoutSamples : ℕ
  lockoutReleaseSamples : ℕ
  bootTarget : ℕ
  bootCount : ℕ
  bootSumRatioDb : K
  autoOffsetDb : K
  bootFloorDb : K

/-- `monitor_squelch_params_t` behind the filters. -/
structure Params (K : Type*) where
  rateHz : K
  holdS : K
  bootWindowS : K
  autoOffsetDb : K
  carrierLockoutS : K
  lockoutReleaseS : K
  initMode : Mode
  initThreshDb : K

variable {K : Type*} [Field K] [LinearOrder K]

/-- `monitor_squelch_init` -/
def monitorSquelchInit [FloorSemiring K] (p : Params K) : MonitorSquelch K :=
  let s : MonitorSquelch K := ⟨.off, 0, 0, 0, 0, 0, 0, false, 0, 0, 0, 0, 0, 0, 0⟩
  let fs := p.rateHz
  if ¬ 0 < fs then s
  else
    let holdS := if 0 < p.holdS then p.holdS else 1 / 2
    let bootS := if 0 < p.bootWindowS then p.bootWindowS else 1
    let lockoutS := if p.carrierLockoutS < 0 then 0 else if p.carrierLockoutS = 0 then 3 / 2 else p.carrierLockoutS
    let releaseS := if 0 < p.lockoutReleaseS then p.lockoutReleaseS else 1 / 2
    let s := { s with
      holdDuration := ⌊holdS * fs⌋₊
      bootTarget := ⌊bootS * fs⌋₊
      autoOffsetDb := if p.autoOffsetDb ≠ 0 then p.autoOffsetDb else 3
      carrierLockoutSamples := ⌊lockoutS * fs⌋₊
      lockoutReleaseSamples := ⌊releaseS * fs⌋₊ }
    match p.initMode with
    | .autoBootstrapping => { s with mode := .autoBootstrapping }
    | .fixed => { s with mode := .fixed, threshDb := p.initThreshDb }
    | _ => { s with mode := .off }

/-- `monitor_squelch_set_auto` -/
def monitorSquelchSetAuto (s : MonitorSquelch K) : MonitorSquelch K :=
  { s with
    mode := .autoBootstrapping, bootCount := 0, bootSumRatioDb := 0, bootFloorDb := 0, threshDb := 0
    holdSamplesRemaining := 0, aboveThreshSamples := 0, belowThreshSamples := 0, lockoutActive := false }

/-- `monitor_squelch_set_off` -/
def monitorSquelchSetOff (s : MonitorSquelch K) : MonitorSquelch K := { s with mode := .off }

/-- `monitor_squelch_set_fixed_db` -/
def monitorSquelchSetFixedDb (s : MonitorSquelch K) (threshDb : K) : MonitorSquelch K :=
  { s with
    mode := .fixed, threshDb := threshDb
    holdSamplesRemaining := 0, aboveThreshSamples := 0, belowThreshSamples := 0, lockoutActive := false }

/-- A sample while the floor is measured. -/
def bootstrap (s : MonitorSquelch K) : MonitorSquelch K :=
  let s := { s with bootSumRatioDb := s.bootSumRatioDb + s.ratioDb, bootCount := s.bootCount + 1 }
  if s.bootTarget ≤ s.bootCount then
    let mean := s.bootSumRatioDb / (s.bootTarget : K)
    { s with bootFloorDb := mean, threshDb := mean + s.autoOffsetDb, mode := .autoEngaged }
  else s

/-- The bookkeeping of the lockout. -/
def lockout (s : MonitorSquelch K) : MonitorSquelch K :=
  if 0 < s.carrierLockoutSamples then
    if s.threshDb < s.ratioDb then
      let s := { s with aboveThreshSamples := s.aboveThreshSamples + 1, belowThreshSamples := 0 }
      if s.carrierLockoutSamples < s.aboveThreshSamples then { s with lockoutActive := true } else s
    else
      let s := { s with aboveThreshSamples := 0, belowThreshSamples := s.belowThreshSamples + 1 }
      if s.lockoutReleaseSamples ≤ s.belowThreshSamples then { s with lockoutActive := false } else s
  else s

/-- The gate, and its hold counter. -/
def gate (s : MonitorSquelch K) : MonitorSquelch K × Bool :=
  if s.mode = .off then (s, true)
  else
    let hold := if s.threshDb < s.ratioDb ∧ s.lockoutActive = false then s.holdDuration else s.holdSamplesRemaining
    ({ s with holdSamplesRemaining := hold - 1 }, 0 < hold)

/-- One sample of the level `ratio`: the state behind it, and whether the gate is open. -/
def step (s : MonitorSquelch K) (ratio : K) : MonitorSquelch K × Bool :=
  let s := { s with ratioDb := ratio }
  if s.mode = .autoBootstrapping then (bootstrap s, false) else gate (lockout s)

/-- `monitor_squelch_process`, on samples with their levels. -/
def monitorSquelchProcess (s : MonitorSquelch K) : List (Int16 × K) → MonitorSquelch K × List Int16
  | [] => (s, [])
  | (x, ratio) :: rest =>
    let r := step s ratio
    let (s, out) := monitorSquelchProcess r.1 rest
    (s, (if r.2 then x else 0) :: out)

/-! ## Runs -/

/-- The calls. -/
inductive Call (K : Type*)
  | setAuto
  | setOff
  | setFixedDb (threshDb : K)
  | process (samples : List (Int16 × K))

def Call.run (s : MonitorSquelch K) : Call K → Option (MonitorSquelch K)
  | .setAuto => some (monitorSquelchSetAuto s)
  | .setOff => some (monitorSquelchSetOff s)
  | .setFixedDb threshDb => some (monitorSquelchSetFixedDb s threshDb)
  | .process samples => some (monitorSquelchProcess s samples).1

/-- The state in front of the `n`-th of the samples that come in. -/
def after (s : MonitorSquelch K) (levels : ℕ → K) : ℕ → MonitorSquelch K
  | 0 => s
  | n + 1 => (step (after s levels n) (levels n)).1

/-- Whether the `n`-th sample passes the gate. -/
def openAt (s : MonitorSquelch K) (levels : ℕ → K) (n : ℕ) : Bool := (step (after s levels n) (levels n)).2

/-- The lockout engages at the `k`-th sample. -/
def EngagesAt (s : MonitorSquelch K) (levels : ℕ → K) (k : ℕ) : Prop :=
  (after s levels k).lockoutActive = false ∧ (after s levels (k + 1)).lockoutActive = true

/-- Behind the `k`-th sample and up to the `j`-th the configured number of samples in a row was not above the
threshold. -/
def ReleasedBy (s : MonitorSquelch K) (levels : ℕ → K) (k j : ℕ) : Prop :=
  ∃ m, k < m ∧ m + s.lockoutReleaseSamples ≤ j + 1 ∧
    ∀ i, m ≤ i → i < m + s.lockoutReleaseSamples → levels i ≤ (after s levels k).threshDb

/-- Once the lockout has engaged, the gate is closed from the hold duration on until the lockout is released, and it is
never open while the lockout is engaged and the hold has expired. -/
structure LockoutSound (s : MonitorSquelch K) (levels : ℕ → K) : Prop where
  closed : ∀ k j, EngagesAt s levels k → k + s.holdDuration ≤ j → ¬ ReleasedBy s levels k j → openAt s levels j = false
  shut : ∀ n, (after s levels (n + 1)).lockoutActive = true → (after s levels n).holdSamplesRemaining = 0 →
    openAt s levels n = false

/-! ## One sample -/

section
variable {K : Type*} [LinearOrder K] (s : MonitorSquelch K)

/-- The bookkeeping changes the counters of the lockout and its mark only. -/
theorem lockout_eq : lockout s = { s with
    aboveThreshSamples := (lockout s).aboveThreshSamples, belowThreshSamples := (lockout s).belowThreshSamples,
    lockoutActive := (lockout s).lockoutActive } := by
  unfold lockout
  dsimp only
  split_ifs <;> rfl

/-- The gate changes the hold counter only. -/
theorem gate_eq : (gate s).1 = { s with holdSamplesRemaining := (gate s).1.holdSamplesRemaining } := by
  unfold gate
  split_ifs <;> rfl

/-- Outside of off the gate of an engaged lockout only counts its hold down. -/
theorem gate_locked (hoff : s.mode ≠ .off) (hlock : s.lockoutActive = true) :
    gate s = ({ s with holdSamplesRemaining := s.holdSamplesRemaining - 1 }, decide (0 < s.holdSamplesRemaining)) := by
  have hno : ¬ (s.threshDb < s.ratioDb ∧ s.lockoutActive = false) := by simp [hlock]
  rw [gate, if_neg hoff]
  simp only [if_neg hno]

theorem gate_hold_le (h : s.holdSamplesRemaining ≤ s.holdDuration) :
    (gate s).1.holdSamplesRemaining ≤ s.holdDuration := by
  unfold gate
  dsimp only
  split_ifs
  · exact h
  · exact Nat.sub_le _ _
  · exact (Nat.sub_le _ _).trans h

variable {s}

/-- A level above the threshold ends a run of others. -/
theorem lockout_above (hl : 0 < s.carrierLockoutSamples) (h : s.threshDb < s.ratioDb) :
    (lockout s).belowThreshSamples = 0 ∧ (s.lockoutActive = true → (lockout s).lockoutActive = true) := by
  rw [lockout, if_pos hl, if_pos h]
  dsimp only
  split_ifs
  · exact ⟨rfl, fun _ => rfl⟩
  · exact ⟨rfl, id⟩

/-- A level that is not above it makes such a run longer, and the lockout is released once it is long enough. -/
theorem lockout_below (hl : 0 < s.carrierLockoutSamples) (h : s.ratioDb ≤ s.threshDb) :
    (lockout s).belowThreshSamples = s.belowThreshSamples + 1 ∧
      (s.belowThreshSamples + 1 < s.lockoutReleaseSamples → (lockout s).lockoutActive = s.lockoutActive) := by
  rw [lockout, if_pos hl, if_neg h.not_gt]
  dsimp only
  split_ifs with hr
  · exact ⟨rfl, fun hlt => absurd hr (Nat.not_le.mpr hlt)⟩
  · exact ⟨rfl, fun _ => rfl⟩

/-- The lockout engages on a level above the threshold. -/
theorem lockout_engages (h : s.lockoutActive = false) (h' : (lockout s).lockoutActive = true) :
    0 < s.carrierLockoutSamples ∧ s.threshDb < s.ratioDb := by
  unfold lockout at h'
  dsimp only at h'
  split_ifs at h' with hl ha hb hr
  · exact ⟨hl, ha⟩
  · exact ⟨hl, ha⟩
  · exact absurd (h.symm.trans h') Bool.false_ne_true
  · exact absurd (h.symm.trans h') Bool.false_ne_true

end

/-- The mode of a squelch that is on and past its bootstrap. -/
def Running (s : MonitorSquelch K) : Prop := s.mode ≠ .off ∧ s.mode ≠ .autoBootstrapping

theorem step_of_ne {s : MonitorSquelch K} (h : s.mode ≠ .autoBootstrapping) (ratio : K) :
    step s ratio = gate (lockout { s with ratioDb := ratio }) := if_neg h

/-- A sample on which the lockout is engaged: the hold runs down, and the gate is open while it lasts. -/
theorem step_locked {s : MonitorSquelch K} (h : Running s) {ratio : K}
    (hlock : (step s ratio).1.lockoutActive = true) :
    step s ratio = ({ lockout { s with ratioDb := ratio } with holdSamplesRemaining := s.holdSamplesRemaining - 1 },
      decide (0 < s.holdSamplesRemaining)) := by
  have hhold : (lockout { s with ratioDb := ratio }).holdSamplesRemaining = s.holdSamplesRemaining := by rw [lockout_eq]
  have hmode : (lockout { s with ratioDb := ratio }).mode ≠ .off := by
    rw [lockout_eq]
    exact h.1
  rw [step_of_ne h.2] at hlock ⊢
  rw [gate_eq] at hlock
  rw [gate_locked _ hmode hlock, hhold]

omit [LinearOrder K] in
theorem bootstrap_eq (s : MonitorSquelch K) : ((bootstrap s).mode = s.mode ∨ (bootstrap s).mode = .autoEngaged) ∧
    (bootstrap s).lockoutActive = s.lockoutActive ∧
    (bootstrap s).holdSamplesRemaining = s.holdSamplesRemaining ∧ (bootstrap s).holdDuration = s.holdDuration ∧
    (bootstrap s).lockoutReleaseSamples = s.lockoutReleaseSamples := by
  unfold bootstrap
  dsimp only
  split_ifs
  · exact ⟨.inr rfl, rfl, rfl, rfl, rfl⟩
  · exact ⟨.inl rfl, rfl, rfl, rfl, rfl⟩

/-- What every sample keeps. -/
theorem step_keeps (s : MonitorSquelch K) (ratio : K) : (step s ratio).1.holdDuration = s.holdDuration ∧
    (step s ratio).1.lockoutReleaseSamples = s.lockoutReleaseSamples ∧
    (s.holdSamplesRemaining ≤ s.holdDuration → (step s ratio).1.holdSamplesRemaining ≤ s.holdDuration) ∧
    (s.mode ≠ .off → (step s ratio).1.mode ≠ .off) := by
  by_cases hb : s.mode = .autoBootstrapping
  · obtain ⟨hmode, -, hhold, hdur, hrel⟩ := bootstrap_eq { s with ratioDb := ratio }
    have hstep : step s ratio = (bootstrap { s with ratioDb := ratio }, false) := if_pos hb
    rw [hstep]
    refine ⟨hdur, hrel, fun h => hhold.trans_le h, fun hoff => ?_⟩
    rcases hmode with hmode | hmode <;> rw [hmode]
    · exact hoff
    · decide
  · have hle := gate_hold_le (lockout { s with ratioDb := ratio })
    have hdur : (lockout { s with ratioDb := ratio }).holdDuration = s.holdDuration := by rw [lockout_eq]
    have hhold : (lockout { s with ratioDb := ratio }).holdSamplesRemaining = s.holdSamplesRemaining := by
      rw [lockout_eq]
    rw [hdur, hhold] at hle
    rw [step_of_ne hb]
    refine ⟨?_, ?_, hle, fun hoff => ?_⟩
    · rw [gate_eq]
      exact hdur
    · rw [gate_eq, lockout_eq]
    · rw [gate_eq, lockout_eq]
      exact hoff

/-! ## Runs of samples -/

section
variable (s : MonitorSquelch K) (levels : ℕ → K)

theorem after_keeps (n : ℕ) : (after s levels n).holdDuration = s.holdDuration ∧
    (after s levels n).lockoutReleaseSamples = s.lockoutReleaseSamples ∧
    (s.holdSamplesRemaining ≤ s.holdDuration → (after s levels n).holdSamplesRemaining ≤ s.holdDuration) ∧
    (s.mode ≠ .off → (after s levels n).mode ≠ .off) := by
  induction n with
  | zero => exact ⟨rfl, rfl, id, id⟩
  | succ n ih =>
      obtain ⟨hdur, hrel, hhold, hoff⟩ := ih
      obtain ⟨hdur', hrel', hhold', hoff'⟩ := step_keeps (after s levels n) (levels n)
      rw [hdur] at hhold'
      exact ⟨hdur'.trans hdur, hrel'.trans hrel, fun h => hhold' (hhold h), fun h => hoff' (hoff h)⟩

/-- A block of samples, sample by sample. -/
theorem monitorSquelchProcess_ofFn (x : ℕ → Int16) (n : ℕ) :
    monitorSquelchProcess s ((List.range n).map fun i => (x i, levels i)) =
      (after s levels n, (List.range n).map fun i => if openAt s levels i then x i else 0) := by
  induction n generalizing s levels x with
  | zero => rfl
  | succ n ih =>
      have hafter : ∀ i, after (step s (levels 0)).1 (fun i => levels (i + 1)) i = after s levels (i + 1) := by
        intro i
        induction i with
        | zero => rfl
        | succ i ihi =>
            show (step (after _ _ i) _).1 = _
            rw [ihi]
            rfl
      have hopen : ∀ i, openAt (step s (levels 0)).1 (fun i => levels (i + 1)) i = openAt s levels (i + 1) := by
        intro i
        rw [openAt, hafter]
        rfl
      have hrest := ih (step s (levels 0)).1 (fun i => levels (i + 1)) fun i => x (i + 1)
      rw [hafter] at hrest
      simp only [hopen] at hrest
      rw [List.range_succ_eq_map, List.map_cons, List.map_map, List.map_cons, List.map_map]
      set rest := (List.range n).map fun i => (x (i + 1), levels (i + 1))
      show (let r := monitorSquelchProcess (step s (levels 0)).1 rest
        (r.1, (if (step s (levels 0)).2 then x 0 else 0) :: r.2)) = _
      rw [hrest]
      rfl

end

/-! ## The lockout -/

/-- Between the sample that engages the lockout and the `n`-th, as long as it has not been released. -/
structure Locked (s : MonitorSquelch K) (levels : ℕ → K) (k n : ℕ) : Prop where
  running : Running (after s levels n)
  carrier : 0 < (after s levels n).carrierLockoutSamples
  thresh : (after s levels n).threshDb = (after s levels k).threshDb
  locked : (after s levels n).lockoutActive = true
  hold : (after s levels n).holdSamplesRemaining ≤ s.holdDuration - (n - k)
  below_le : (after s levels n).belowThreshSamples + k < n
  below : ∀ i, n - (after s levels n).belowThreshSamples ≤ i → i < n → levels i ≤ (after s levels k).threshDb

section
variable {s : MonitorSquelch K} {levels : ℕ → K} {k : ℕ}

theorem EngagesAt.running (h : EngagesAt s levels k) (hon : s.mode ≠ .off) : Running (after s levels k) := by
  refine ⟨(after_keeps s levels k).2.2.2 hon, fun hboot => ?_⟩
  have hstep : step (after s levels k) (levels k) =
      (bootstrap { after s levels k with ratioDb := levels k }, false) := if_pos hboot
  have hsame := (bootstrap_eq { after s levels k with ratioDb := levels k }).2.1
  have hengaged := h.2
  rw [after, hstep] at hengaged
  exact absurd ((hsame.symm.trans hengaged).symm.trans h.1) (by decide)

/-- The sample behind which the lockout is engaged. -/
theorem Locked.start (h : EngagesAt s levels k) (hon : s.mode ≠ .off)
    (hhold : s.holdSamplesRemaining ≤ s.holdDuration) : Locked s levels k (k + 1) := by
  have hrun := h.running hon
  have hlock := h.2
  rw [after] at hlock
  have hstep := step_locked hrun hlock
  have hactive : (lockout { after s levels k with ratioDb := levels k }).lockoutActive = true := by
    rw [hstep] at hlock
    exact hlock
  obtain ⟨hcarrier, habove⟩ := lockout_engages (s := { after s levels k with ratioDb := levels k }) h.1 hactive
  have hzero := (lockout_above (s := { after s levels k with ratioDb := levels k }) hcarrier habove).1
  have hle := (after_keeps s levels k).2.2.1 hhold
  have hafter : after s levels (k + 1) = { lockout { after s levels k with ratioDb := levels k } with
      holdSamplesRemaining := (after s levels k).holdSamplesRemaining - 1 } := by rw [after, hstep]
  constructor
  · rw [hafter, lockout_eq]
    exact hrun
  · rw [hafter, lockout_eq]
    exact hcarrier
  · rw [hafter, lockout_eq]
  · rw [hafter]
    exact hactive
  · rw [hafter]
    show (after s levels k).holdSamplesRemaining - 1 ≤ _
    omega
  · rw [hafter]
    show (lockout _).belowThreshSamples + k < k + 1
    omega
  · intro i hlo hhi
    rw [hafter] at hlo
    change k + 1 - (lockout _).belowThreshSamples ≤ i at hlo
    omega

/-- One more sample. -/
theorem Locked.next {n : ℕ} (h : Locked s levels k n) (hrel : ¬ ReleasedBy s levels k n) :
    Locked s levels k (n + 1) := by
  set t := { after s levels n with ratioDb := levels n } with ht
  have hkn := h.below_le
  -- the run of levels that are not above the threshold ends here, or is one longer but not long enough
  have hsample : (lockout t).lockoutActive = true ∧ (lockout t).belowThreshSamples + k < n + 1 ∧
      ∀ i, n + 1 - (lockout t).belowThreshSamples ≤ i → i < n + 1 → levels i ≤ (after s levels k).threshDb := by
    rcases lt_or_ge (after s levels n).threshDb (levels n) with habove | hbelow
    · obtain ⟨hzero, hstays⟩ := lockout_above (s := t) h.carrier habove
      refine ⟨hstays h.locked, by omega, fun i hlo hhi => ?_⟩
      omega
    · obtain ⟨hsucc, hstays⟩ := lockout_below (s := t) h.carrier hbelow
      have hrun : ∀ i, n - (after s levels n).belowThreshSamples ≤ i → i < n + 1 →
          levels i ≤ (after s levels k).threshDb := by
        intro i hlo hhi
        rcases Nat.lt_succ_iff_lt_or_eq.mp hhi with hi | rfl
        · exact h.below i hlo hi
        · exact h.thresh ▸ hbelow
      have hshort : (after s levels n).belowThreshSamples + 1 < (after s levels n).lockoutReleaseSamples := by
        by_contra hlong
        rw [(after_keeps s levels n).2.1] at hlong
        refine hrel ⟨n + 1 - s.lockoutReleaseSamples, by omega, by omega, fun i hlo hhi => hrun i (by omega) (by omega)⟩
      change (lockout t).belowThreshSamples = (after s levels n).belowThreshSamples + 1 at hsucc
      refine ⟨(hstays hshort).trans h.locked, by omega, fun i hlo hhi => hrun i (by omega) hhi⟩
  obtain ⟨hactive, hle, hrun⟩ := hsample
  have hlock : (step (after s levels n) (levels n)).1.lockoutActive = true := by
    rw [step_of_ne h.running.2, gate_eq]
    exact hactive
  have hafter : after s levels (n + 1) =
      { lockout t with holdSamplesRemaining := (after s levels n).holdSamplesRemaining - 1 } := by
    rw [after, step_locked h.running hlock]
  have hhold := h.hold
  constructor
  · rw [hafter, lockout_eq]
    exact h.running
  · rw [hafter, lockout_eq]
    exact h.carrier
  · rw [hafter, lockout_eq]
    exact h.thresh
  · rw [hafter]
    exact hactive
  · rw [hafter]
    show (after s levels n).holdSamplesRemaining - 1 ≤ _
    omega
  · rw [hafter]
    exact hle
  · rw [hafter]
    exact hrun

/-- Until it is released the lockout stays engaged. -/
theorem Locked.until (h : Locked s levels k (k + 1)) {j : ℕ} (hj : k ≤ j) (hrel : ¬ ReleasedBy s levels k j) :
    Locked s levels k (j + 1) := by
  induction j, hj using Nat.le_induction with
  | base => exact h
  | succ j hj ih =>
      refine (ih fun hr => hrel ?_).next hrel
      obtain ⟨m, hkm, hmj, hm⟩ := hr
      exact ⟨m, hkm, hmj.trans (Nat.le_succ _), hm⟩

theorem ReleasedBy.mono {j j' : ℕ} (hjj' : j ≤ j') (h : ReleasedBy s levels k j) : ReleasedBy s levels k j' := by
  obtain ⟨m, hkm, hmj, hm⟩ := h
  exact ⟨m, hkm, by omega, hm⟩

end

theorem hold_le_of_process {s : MonitorSquelch K} (h : s.holdSamplesRemaining ≤ s.holdDuration)
    (samples : List (Int16 × K)) :
    (monitorSquelchProcess s samples).1.holdSamplesRemaining ≤ (monitorSquelchProcess s samples).1.holdDuration := by
  induction samples generalizing s with
  | nil => exact h
  | cons sample samples ih =>
      obtain ⟨hdur, -, hhold, -⟩ := step_keeps s sample.2
      apply ih
      rw [hdur]
      exact hhold h

theorem hold_le_of_reaches [FloorSemiring K] {p : Params K} {s : MonitorSquelch K}
    (h : Reaches Call.run Free (monitorSquelchInit p) s) : s.holdSamplesRemaining ≤ s.holdDuration := by
  refine h.invariant (P := fun s => s.holdSamplesRemaining ≤ s.holdDuration) ?_ ?_
  · have hzero : (monitorSquelchInit p).holdSamplesRemaining = 0 := by
      by_cases hfs : 0 < p.rateHz
      · rw [monitorSquelchInit, if_neg (not_not.mpr hfs)]
        dsimp only
        cases p.initMode <;> rfl
      · rw [monitorSquelchInit, if_pos hfs]
    rw [hzero]
    exact Nat.zero_le _
  · intro t call u ht _ hstep
    cases call with
    | setAuto =>
        obtain rfl := Option.some.inj hstep
        exact Nat.zero_le _
    | setOff =>
        obtain rfl := Option.some.inj hstep
        exact ht
    | setFixedDb threshDb =>
        obtain rfl := Option.some.inj hstep
        exact Nat.zero_le _
    | process samples =>
        obtain rfl := Option.some.inj hstep
        exact hold_le_of_process ht samples

/-- **An engaged lockout shuts the gate**: while the squelch is not off, the gate is closed from the hold duration on
behind the sample that engages the lockout, whatever levels come in, until the configured number of samples in a row has
not been above the threshold, and it is never open while the lockout is engaged and the hold has expired. -/
theorem lockout_sound [FloorSemiring K] (p : Params K) {s : MonitorSquelch K}
    (h : Reaches Call.run Free (monitorSquelchInit p) s) (hon : s.mode ≠ .off) (levels : ℕ → K) :
    LockoutSound s levels where
  closed k j hengages hj hrel := by
    have hhold := hold_le_of_reaches h
    have hlocked := (Locked.start hengages hon hhold).until (by omega : k ≤ j) hrel
    have hlock := hlocked.locked
    rw [after] at hlock
    have hbefore : Running (after s levels j) ∧ (after s levels j).holdSamplesRemaining ≤ s.holdDuration - (j - k) := by
      rcases Nat.eq_or_lt_of_le (by omega : k ≤ j) with rfl | hlt
      · exact ⟨hengages.running hon, ((after_keeps s levels k).2.2.1 hhold).trans (by omega)⟩
      · obtain ⟨i, rfl⟩ : ∃ i, j = i + 1 := ⟨j - 1, by omega⟩
        have hprev := (Locked.start hengages hon hhold).until (by omega : k ≤ i) fun hr =>
          hrel (hr.mono (Nat.le_succ i))
        exact ⟨hprev.running, hprev.hold⟩
    have hzero : (after s levels j).holdSamplesRemaining = 0 := by
      have hle := hbefore.2
      omega
    rw [openAt, step_locked hbefore.1 hlock, hzero]
    rfl
  shut n hlock hzero := by
    by_cases hboot : (after s levels n).mode = .autoBootstrapping
    · rw [openAt, step, if_pos hboot]
    · have hrun : Running (after s levels n) := ⟨(after_keeps s levels n).2.2.2 hon, hboot⟩
      rw [after] at hlock
      rw [openAt, step_locked hrun hlock, hzero]
      rfl

/-- A rate of 1 Hz, and one sample of hold and of release. -/
def oneHertz (mode : Mode) : Params ℚ := ⟨1, 1, 1, 3, 2, 1, mode, 0⟩

/-- A fixed threshold of 0 dB, and levels of 1 dB. -/
theorem lockout_sound_fixed : (monitorSquelchInit (oneHertz .fixed)).mode ≠ .off ∧
    LockoutSound (monitorSquelchInit (oneHertz .fixed)) fun _ => 1 := by
  have hfs : (0 : ℚ) < (oneHertz .fixed).rateHz := by norm_num [oneHertz]
  have hon : (monitorSquelchInit (oneHertz .fixed)).mode ≠ .off := by
    rw [monitorSquelchInit, if_neg (not_not.mpr hfs)]
    exact fun h => Mode.noConfusion h
  exact ⟨hon, lockout_sound (oneHertz .fixed) .refl hon fun _ => 1⟩

/-- In off the lockout engages as well, and the gate stays open. -/
theorem lockout_off : ¬ ∀ (p : Params ℚ) (s : MonitorSquelch ℚ), Reaches Call.run Free (monitorSquelchInit p) s →
    ∀ levels, LockoutSound s levels := by
  intro h
  have hsound := h (oneHertz .off) _ .refl fun _ => 1
  have hlock : (after (monitorSquelchInit (oneHertz .off)) (fun _ => 1) 3).lockoutActive = true := by decide +kernel
  have hzero : (after (monitorSquelchInit (oneHertz .off)) (fun _ => 1) 2).holdSamplesRemaining = 0 := by decide +kernel
  have hopen : openAt (monitorSquelchInit (oneHertz .off)) (fun _ => 1) 2 = true := by decide +kernel
  exact absurd (hopen.symm.trans (hsound.shut 2 hlock hzero)) (by decide)

end SimpleSatOps.Squelch
