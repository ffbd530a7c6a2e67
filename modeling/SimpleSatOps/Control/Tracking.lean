import SimpleSatOps.Hw.AntennaRotator

/-!
# Moves to a fixed target (`tracking.c`)

* `Rot`, `mainRotatorSubmitSet` : the state of the rotator, and a position handed to the worker;
* `homeMid`, `pointToStationaryTarget` : a move to a target, in two steps where it is more than half a turn;
* `homeTick` : the second step, in `tracking_tick`;
* `HomeSound` : a move in two steps neither stalls nor winds up;
* `homeSound_iff` : it does so just when it is shorter than a full turn by twice the tolerance.

Angles are exact.
-/

namespace SimpleSatOps.Tracking
open AntennaRotator

/-! ## The source -/

/-- `antenna_rotator_result_t`, as far as the moves go. -/
inductive Result
  | ok | badResponse | azimuthLimit | elevationLimit
deriving DecidableEq

/-- `antenna_rotator_t` -/
structure Rotator where
  azimuth : ℚ
  elevation : ℚ
  targetAzimuth : ℚ
  targetElevation : ℚ
  targetAzimuthUnwrapped : ℚ
  unwrappedTargetValid : Bool
  homePendingFinalAz : ℚ
  homingInProgress : Bool
  antennaIsMoving : Bool

/-- `rot_t`: `snapshot` is a good status of the worker that is not stale, `submitted` what was handed to it. -/
structure Rot where
  antennaRotator : Rotator
  haveAntennaRotator : Bool
  snapshot : Option (ℚ × ℚ)
  submitted : List (ℚ × ℚ)

def MAX_DELTA_AZIMUTH_DEGREES : ℚ := 1

def MAX_DELTA_ELEVATION_DEGREES : ℚ := 1

def HOME_ECHO_TOLERANCE_DEG : ℚ := 2

/-- `main_rotator_submit_set` -/
def mainRotatorSubmitSet (rot : Rot) (azUnwrapped elevation : ℚ) : Result × Rot :=
  if azUnwrapped < MINIMUM_AZIMUTH ∨ MAXIMUM_AZIMUTH < azUnwrapped then (.azimuthLimit, rot)
  else if elevation < MINIMUM_ELEVATION ∨ MAXIMUM_ELEVATION < elevation then (.elevationLimit, rot)
  else
    (.ok, { rot with
      antennaRotator := { rot.antennaRotator with
        targetAzimuthUnwrapped := azUnwrapped, targetAzimuth := azUnwrapped, targetElevation := elevation,
        unwrappedTargetValid := true }
      submitted := rot.submitted ++ [(azUnwrapped, elevation)] })

/-- `main_rotator_refresh_targets_from_snapshot`; `none` for -1. -/
def refreshTargetsFromSnapshot (rot : Rot) : Option Rot :=
  rot.snapshot.map fun (az, el) =>
    { rot with
      antennaRotator := { rot.antennaRotator with
        azimuth := az, elevation := el, targetAzimuth := az, targetElevation := el, targetAzimuthUnwrapped := az,
        unwrappedTargetValid := true } }

/-- The waypoint of a move in two steps. -/
def homeMid (prev delta : ℚ) : ℚ :=
  let mid := prev + delta / 2
  let mid := if mid < MINIMUM_AZIMUTH then MINIMUM_AZIMUTH else mid
  if MAXIMUM_AZIMUTH < mid then MAXIMUM_AZIMUTH else mid

/-- What a position that was handed over sets. -/
def moving (r : Result × Rot) : Result × Rot :=
  if r.1 = .ok then (r.1, { r.2 with antennaRotator := { r.2.antennaRotator with antennaIsMoving := true } }) else r

/-- `point_to_stationary_target` -/
def pointToStationaryTarget (rot : Rot) (azimuth elevation : ℚ) : Result × Rot :=
  let refreshed := refreshTargetsFromSnapshot rot
  if refreshed.isNone ∧ rot.antennaRotator.unwrappedTargetValid = false then (.badResponse, rot)
  else
    let rot := refreshed.getD rot
    let prev := rot.antennaRotator.targetAzimuthUnwrapped
    let finalAz := homeUnwrappedTarget prev azimuth
    let delta := finalAz - prev
    if |delta| ≤ MAX_DELTA_AZIMUTH_DEGREES ∧
        |elevation - rot.antennaRotator.elevation| ≤ MAX_DELTA_ELEVATION_DEGREES then
      (.ok, { rot with
        antennaRotator := { rot.antennaRotator with
          targetAzimuthUnwrapped := finalAz, targetAzimuth := finalAz, targetElevation := elevation,
          unwrappedTargetValid := true, homingInProgress := false, homePendingFinalAz := 0 } })
    else if 180 < |delta| then
      let rot := { rot with
        antennaRotator := { rot.antennaRotator with homePendingFinalAz := finalAz, homingInProgress := true } }
      moving (mainRotatorSubmitSet rot (homeMid prev delta) elevation)
    else
      let rot := { rot with
        antennaRotator := { rot.antennaRotator with homingInProgress := false, homePendingFinalAz := 0 } }
      moving (mainRotatorSubmitSet rot finalAz elevation)

/-- The second leg of a move, in `tracking_tick`. -/
def homeTick (rot : Rot) : Rot :=
  let r := rot.antennaRotator
  if r.homingInProgress ∧ rot.haveAntennaRotator then
    if homeLeg2Ready r.azimuth r.targetAzimuthUnwrapped r.homePendingFinalAz HOME_ECHO_TOLERANCE_DEG then
      let (_, rot) := moving (mainRotatorSubmitSet rot r.homePendingFinalAz 0)
      { rot with antennaRotator := { rot.antennaRotator with homingInProgress := false, homePendingFinalAz := 0 } }
    else rot
  else rot

/-! ## A move in two steps -/

/-- The target of a move from `prev`. -/
def homeFinal (prev azimuth : ℚ) : ℚ := homeUnwrappedTarget prev azimuth

/-- Its waypoint. -/
def homeWaypoint (prev azimuth : ℚ) : ℚ := homeMid prev (homeFinal prev azimuth - prev)

/-- Whether the second leg is due at a reading. -/
def leg2At (prev azimuth a : ℚ) : Bool :=
  homeLeg2Ready a (homeWaypoint prev azimuth) (homeFinal prev azimuth) HOME_ECHO_TOLERANCE_DEG

/-- A move in two steps keeps to the limits, is not cut short by the reading it started at, has a reading on the way to
its waypoint at which the second leg is due, and there the short way to the target is the unwinding one. -/
structure HomeSound (prev azimuth : ℚ) : Prop where
  final_mem : homeFinal prev azimuth ∈ Set.Icc MINIMUM_AZIMUTH MAXIMUM_AZIMUTH
  mid_mem : homeWaypoint prev azimuth ∈ Set.Icc MINIMUM_AZIMUTH MAXIMUM_AZIMUTH
  stale : leg2At prev azimuth prev = false
  fires : ∃ a ∈ Set.uIcc prev (homeWaypoint prev azimuth), leg2At prev azimuth a = true
  unwinds : ∀ a ∈ Set.uIoo prev (homeWaypoint prev azimuth), leg2At prev azimuth a = true →
    0 < wrapToPm180 (homeFinal prev azimuth - a) * (homeFinal prev azimuth - prev)

/-- A long move is commanded to its waypoint, with the target pending. -/
theorem pointToStationaryTarget_twoStep {rot rot₀ : Rot} {azimuth elevation : ℚ}
    (hrefresh : refreshTargetsFromSnapshot rot = some rot₀)
    (htwo : 180 < |homeFinal rot₀.antennaRotator.targetAzimuthUnwrapped azimuth -
      rot₀.antennaRotator.targetAzimuthUnwrapped|)
    (hmid : homeWaypoint rot₀.antennaRotator.targetAzimuthUnwrapped azimuth ∈ Set.Icc MINIMUM_AZIMUTH MAXIMUM_AZIMUTH)
    (hel : elevation ∈ Set.Icc MINIMUM_ELEVATION MAXIMUM_ELEVATION) :
    let r := pointToStationaryTarget rot azimuth elevation
    let prev := rot₀.antennaRotator.targetAzimuthUnwrapped
    r.1 = .ok ∧ r.2.antennaRotator.homingInProgress = true ∧
      r.2.antennaRotator.homePendingFinalAz = homeFinal prev azimuth ∧
      r.2.antennaRotator.targetAzimuthUnwrapped = homeWaypoint prev azimuth ∧
      r.2.submitted = rot₀.submitted ++ [(homeWaypoint prev azimuth, elevation)] := by
  have hfar : ¬ |homeFinal rot₀.antennaRotator.targetAzimuthUnwrapped azimuth -
      rot₀.antennaRotator.targetAzimuthUnwrapped| ≤ MAX_DELTA_AZIMUTH_DEGREES := by
    unfold MAX_DELTA_AZIMUTH_DEGREES
    linarith
  have hlim : ¬ (homeWaypoint rot₀.antennaRotator.targetAzimuthUnwrapped azimuth < MINIMUM_AZIMUTH ∨
      MAXIMUM_AZIMUTH < homeWaypoint rot₀.antennaRotator.targetAzimuthUnwrapped azimuth) :=
    not_or.mpr ⟨hmid.1.not_gt, hmid.2.not_gt⟩
  have hel' : ¬ (elevation < MINIMUM_ELEVATION ∨ MAXIMUM_ELEVATION < elevation) :=
    not_or.mpr ⟨hel.1.not_gt, hel.2.not_gt⟩
  unfold homeWaypoint homeFinal at *
  unfold pointToStationaryTarget
  simp only [hrefresh, Option.isNone_some, Bool.false_eq_true, false_and, if_false, Option.getD_some, hfar,
    if_pos htwo, mainRotatorSubmitSet, if_neg hlim, if_neg hel', moving, if_true, and_self]

/-! ## Where the second leg is due -/

theorem wrapToPm180_near {d : ℚ} (h : |d| < 180) : wrapToPm180 d = d :=
  wrapToPm180_eq 0 (by simp) (abs_lt.mp h).1 (abs_lt.mp h).2.le

/-- The short way to a target more than half a turn away is the other way round. -/
theorem wrapToPm180_far {d x : ℚ} (hfar : 180 < |d|) (hturn : |d| < 360) (hsign : 0 < d * x) :
    wrapToPm180 d * x < 0 := by
  rcases pos_and_pos_or_neg_and_neg_of_mul_pos hsign with ⟨hpos, hx⟩ | ⟨hneg, hx⟩
  · rw [abs_of_pos hpos] at hfar hturn
    rw [wrapToPm180_eq 1 (show d = d - 360 + 360 * ((1 : ℤ) : ℚ) by push_cast; ring) (by linarith) (by linarith)]
    exact mul_neg_of_neg_of_pos (by linarith) hx
  · rw [abs_of_neg hneg] at hfar hturn
    rw [wrapToPm180_eq (-1) (show d = d + 360 + 360 * ((-1 : ℤ) : ℚ) by push_cast; ring) (by linarith) (by linarith)]
    exact mul_neg_of_pos_of_neg (by linarith) hx

theorem wrapToPm180_ne_zero {d : ℚ} (hne : d ≠ 0) (hturn : |d| < 360) : wrapToPm180 d ≠ 0 := by
  intro hzero
  obtain ⟨-, k, hk⟩ := wrapToPm180_spec d
  rw [hzero, zero_add] at hk
  have hk1 : |(k : ℚ)| < 1 := by
    rw [hk, abs_mul, abs_of_pos (by norm_num : (0 : ℚ) < 360)] at hturn
    linarith
  have hk0 : k = 0 := Int.abs_lt_one_iff.mp (by exact_mod_cast hk1)
  rw [hk0, Int.cast_zero, mul_zero] at hk
  exact hne hk

/-- The zone of the second leg, for a rotation `x` of the unwinding. -/
theorem inZone_iff {w x : ℚ} (hx : x ≠ 0) : (w = 0 ∨ (0 < w ↔ 0 < x)) ↔ 0 ≤ w * x := by
  rcases lt_or_gt_of_ne hx with hneg | hpos
  · rw [iff_false_right hneg.not_gt, not_lt]
    constructor
    · rintro (rfl | h)
      · rw [zero_mul]
      · exact mul_nonneg_of_nonpos_of_nonpos h hneg.le
    · exact fun h => Or.inr (nonpos_of_mul_nonneg_left h hneg)
  · rw [mul_nonneg_iff_of_pos_right hpos, iff_true_right hpos]
    constructor
    · rintro (rfl | h)
      · exact le_rfl
      · exact h.le
    · intro h
      exact h.eq_or_lt.imp_left Eq.symm

theorem homeLeg2Ready_iff {a mid final tol : ℚ} (hne : final - mid ≠ 0) :
    homeLeg2Ready a mid final tol = true ↔
      tol < |wrapToPm180 (a - mid)| ∧ 0 ≤ wrapToPm180 (final - a) * (final - mid) := by
  unfold homeLeg2Ready
  rw [decide_eq_true_iff, inZone_iff hne]

variable {prev azimuth : ℚ}

/-- The target and the waypoint of a move in two steps within the wrapped azimuths. -/
theorem homeFinal_eq (hlo : -179 ≤ azimuth) (hhi : azimuth ≤ 179) (prev : ℚ) : homeFinal prev azimuth = azimuth :=
  homeUnwrappedTarget_eq hlo hhi prev

theorem homeWaypoint_eq (hlo : -179 ≤ azimuth) (hhi : azimuth ≤ 179) (hplo : -179 ≤ prev) (hphi : prev ≤ 360) :
    homeWaypoint prev azimuth = prev + (azimuth - prev) / 2 := by
  unfold homeWaypoint homeMid MINIMUM_AZIMUTH MAXIMUM_AZIMUTH
  rw [homeFinal_eq hlo hhi]
  dsimp only
  rw [if_neg (show ¬ prev + (azimuth - prev) / 2 < -179 by linarith),
    if_neg (show ¬ 539 < prev + (azimuth - prev) / 2 by linarith)]

/-- The readings between the start and the waypoint, by the share of the way that is left. -/
theorem mem_way_iff {a : ℚ} :
    a ∈ Set.uIcc prev (prev + (azimuth - prev) / 2) ↔
      ∃ l, 1 / 2 ≤ l ∧ l ≤ 1 ∧ a = azimuth - l * (azimuth - prev) := by
  rw [← segment_eq_uIcc, segment_eq_image]
  constructor
  · rintro ⟨θ, ⟨h0, h1⟩, rfl⟩
    exact ⟨1 - θ / 2, by linarith, by linarith, by simp only [smul_eq_mul]; ring⟩
  · rintro ⟨l, hlo, hhi, rfl⟩
    exact ⟨2 * (1 - l), ⟨by linarith, by linarith⟩, by simp only [smul_eq_mul]; ring⟩

/-- The second leg at a reading with a share `l` of the rotation left. -/
theorem leg2At_iff (hlo : -179 ≤ azimuth) (hhi : azimuth ≤ 179) (hplo : -179 ≤ prev) (hphi : prev ≤ 360)
    (hne : azimuth - prev ≠ 0) (l : ℚ) :
    leg2At prev azimuth (azimuth - l * (azimuth - prev)) = true ↔
      2 < |wrapToPm180 ((1 / 2 - l) * (azimuth - prev))| ∧
        0 ≤ wrapToPm180 (l * (azimuth - prev)) * (azimuth - prev) := by
  have hunwind : azimuth - (prev + (azimuth - prev) / 2) = (azimuth - prev) / 2 := by ring
  have hmid : azimuth - l * (azimuth - prev) - (prev + (azimuth - prev) / 2) = (1 / 2 - l) * (azimuth - prev) := by ring
  have hleft : azimuth - (azimuth - l * (azimuth - prev)) = l * (azimuth - prev) := by ring
  have hhalf : ∀ w : ℚ, 0 ≤ w * ((azimuth - prev) / 2) ↔ 0 ≤ w * (azimuth - prev) := by
    intro w
    rw [← mul_div_assoc]
    constructor <;> intro h <;> linarith
  unfold leg2At HOME_ECHO_TOLERANCE_DEG
  rw [homeFinal_eq hlo hhi, homeWaypoint_eq hlo hhi hplo hphi,
    homeLeg2Ready_iff (by rw [hunwind]; exact div_ne_zero hne two_ne_zero), hunwind, hmid, hleft, hhalf]

/-- More than half a turn and less than a full one from the target the second leg is not due. -/
theorem not_leg2At_far (hlo : -179 ≤ azimuth) (hhi : azimuth ≤ 179) (hplo : -179 ≤ prev) (hphi : prev ≤ 360)
    (hne : azimuth - prev ≠ 0) {l : ℚ} (hpos : 0 < l) (hfar : 180 < l * |azimuth - prev|)
    (hturn : l * |azimuth - prev| < 360) : leg2At prev azimuth (azimuth - l * (azimuth - prev)) = false := by
  have habs : |l * (azimuth - prev)| = l * |azimuth - prev| := by rw [abs_mul, abs_of_pos hpos]
  have hsign : 0 < l * (azimuth - prev) * (azimuth - prev) := by
    rw [mul_assoc]
    exact mul_pos hpos (mul_self_pos.mpr hne)
  rw [Bool.eq_false_iff, ne_eq, leg2At_iff hlo hhi hplo hphi hne, not_and, not_le]
  exact fun _ => wrapToPm180_far (habs ▸ hfar) (habs ▸ hturn) hsign

/-- Less than half a turn from the target it is, out of the tolerance of the waypoint. -/
theorem leg2At_near_iff (hlo : -179 ≤ azimuth) (hhi : azimuth ≤ 179) (hplo : -179 ≤ prev) (hphi : prev ≤ 360)
    (hne : azimuth - prev ≠ 0) {l : ℚ} (hhalf : 1 / 2 ≤ l) (hnear : l * |azimuth - prev| < 180) :
    leg2At prev azimuth (azimuth - l * (azimuth - prev)) = true ↔ 2 < (l - 1 / 2) * |azimuth - prev| := by
  have hpos : 0 < l := by linarith
  have habs : |l * (azimuth - prev)| = l * |azimuth - prev| := by rw [abs_mul, abs_of_pos hpos]
  have hmid : |(1 / 2 - l) * (azimuth - prev)| = (l - 1 / 2) * |azimuth - prev| := by
    rw [abs_mul, abs_of_nonpos (by linarith), neg_sub]
  have hle : (l - 1 / 2) * |azimuth - prev| ≤ l * |azimuth - prev| :=
    mul_le_mul_of_nonneg_right (by linarith) (abs_nonneg _)
  have hsq : 0 ≤ l * (azimuth - prev) * (azimuth - prev) := by
    rw [mul_assoc]
    exact mul_nonneg hpos.le (mul_self_nonneg _)
  rw [leg2At_iff hlo hhi hplo hphi hne, wrapToPm180_near (hmid ▸ by linarith), wrapToPm180_near (habs ▸ hnear), hmid]
  exact and_iff_left hsq

theorem rotation_ne_zero (htwo : 180 < |azimuth - prev|) : azimuth - prev ≠ 0 := by
  intro h
  rw [h, abs_zero] at htwo
  exact absurd htwo (by norm_num)

theorem start_eq : azimuth - 1 * (azimuth - prev) = prev := by ring

/-- A move shorter than a full turn by twice the tolerance is sound. -/
theorem homeSound_of_lt (hlo : -179 ≤ azimuth) (hhi : azimuth ≤ 179) (hplo : -179 ≤ prev) (hphi : prev ≤ 360)
    (htwo : 180 < |azimuth - prev|) (hlt : |azimuth - prev| < 356) : HomeSound prev azimuth := by
  have hne := rotation_ne_zero htwo
  have hway := homeWaypoint_eq hlo hhi hplo hphi
  refine ⟨?_, ?_, ?_, ?_, ?_⟩
  · rw [homeFinal_eq hlo hhi]
    unfold MINIMUM_AZIMUTH MAXIMUM_AZIMUTH
    constructor <;> linarith
  · rw [hway]
    unfold MINIMUM_AZIMUTH MAXIMUM_AZIMUTH
    constructor <;> linarith
  · have hfar := not_leg2At_far hlo hhi hplo hphi hne one_pos (by linarith) (by linarith)
    rwa [start_eq] at hfar
  · -- halfway between the tolerance and the border of the zone
    have hl : (1 / 4 + 91 / |azimuth - prev|) * |azimuth - prev| = |azimuth - prev| / 4 + 91 := by
      have hpos : |azimuth - prev| ≠ 0 := abs_ne_zero.mpr hne
      field_simp
    have hhalf : 1 / 2 ≤ 1 / 4 + 91 / |azimuth - prev| := by
      have h : 1 / 4 ≤ 91 / |azimuth - prev| := by
        rw [le_div_iff₀ (by linarith)]
        linarith
      linarith
    have hone : 1 / 4 + 91 / |azimuth - prev| ≤ 1 := by
      have h : 91 / |azimuth - prev| ≤ 3 / 4 := by
        rw [div_le_iff₀ (by linarith)]
        linarith
      linarith
    refine ⟨_, ?_, (leg2At_near_iff hlo hhi hplo hphi hne hhalf (by rw [hl]; linarith)).mpr ?_⟩
    · rw [hway]
      exact mem_way_iff.mpr ⟨_, hhalf, hone, rfl⟩
    · rw [sub_mul, hl]
      linarith
  · intro a ha hready
    rw [hway] at ha
    obtain ⟨l, hhalf, hone, rfl⟩ := mem_way_iff.mp (Set.uIoo_subset_uIcc_self ha)
    have hpos : 0 < l := by linarith
    have hleft : azimuth - (azimuth - l * (azimuth - prev)) = l * (azimuth - prev) := by ring
    have hturn : |l * (azimuth - prev)| < 360 := by
      rw [abs_mul, abs_of_pos hpos]
      have h : l * |azimuth - prev| ≤ 1 * |azimuth - prev| := mul_le_mul_of_nonneg_right hone (abs_nonneg _)
      linarith
    have hsign := ((leg2At_iff hlo hhi hplo hphi hne l).mp hready).2
    rw [homeFinal_eq hlo hhi, hleft]
    exact lt_of_le_of_ne hsign (Ne.symm (mul_ne_zero (wrapToPm180_ne_zero (mul_ne_zero hpos.ne' hne) hturn) hne))

/-- A longer one stalls at its waypoint, or is cut short at its start. -/
theorem not_homeSound_of_ge (hlo : -179 ≤ azimuth) (hhi : azimuth ≤ 179) (hplo : -179 ≤ prev) (hphi : prev ≤ 360)
    (hge : 356 ≤ |azimuth - prev|) : ¬ HomeSound prev azimuth := by
  have hne := rotation_ne_zero (show 180 < |azimuth - prev| by linarith)
  rintro ⟨-, -, hstale, ⟨a, ha, hready⟩, -⟩
  rcases lt_or_ge |azimuth - prev| 360 with hlt | hturn
  · -- the zone begins within the tolerance of the waypoint
    rw [homeWaypoint_eq hlo hhi hplo hphi] at ha
    obtain ⟨l, hhalf, hone, rfl⟩ := mem_way_iff.mp ha
    have hpos : 0 < l := by linarith
    have hle : l * |azimuth - prev| ≤ 1 * |azimuth - prev| := mul_le_mul_of_nonneg_right hone (abs_nonneg _)
    rcases le_or_gt (l * |azimuth - prev|) 180 with hnear | hfar
    · have hmid : |(1 / 2 - l) * (azimuth - prev)| ≤ 2 := by
        rw [abs_mul, abs_of_nonpos (by linarith), neg_sub, sub_mul]
        linarith
      have htol := ((leg2At_iff hlo hhi hplo hphi hne l).mp hready).1
      rw [wrapToPm180_near (by linarith)] at htol
      exact absurd htol hmid.not_gt
    · rw [not_leg2At_far hlo hhi hplo hphi hne hpos hfar (by linarith)] at hready
      exact Bool.noConfusion hready
  · -- a full turn away the short way is the unwinding one again
    have hneg : azimuth - prev ≤ -360 := by
      rcases le_abs.mp hturn with h | h <;> linarith
    have hready' := (leg2At_iff hlo hhi hplo hphi hne 1).mpr ⟨?_, ?_⟩
    · rw [start_eq, hstale] at hready'
      exact Bool.noConfusion hready'
    · rcases eq_or_lt_of_le hneg with heq | hlt
      · rw [wrapToPm180_eq (x := 180) 0 (by rw [heq]; norm_num) (by norm_num) le_rfl]
        norm_num
      · rw [wrapToPm180_eq (x := (1 / 2 - 1) * (azimuth - prev) - 360) 1 (by push_cast; ring) (by linarith)
          (by linarith), abs_of_neg (by linarith)]
        linarith
    · rw [one_mul, wrapToPm180_eq (-1) (show azimuth - prev = azimuth - prev + 360 + 360 * ((-1 : ℤ) : ℚ) by
        push_cast; ring) (by linarith) (by linarith)]
      exact mul_nonneg_of_nonpos_of_nonpos (by linarith) (by linarith)

/-- **A move in two steps neither stalls nor winds up just when it is shorter than 356 degrees.** A full turn less
twice the tolerance: from there on every reading at which the second leg is due is taken for the echo of the waypoint,
and from a full turn on the reading the move started at is not. -/
theorem homeSound_iff {prev azimuth : ℚ} (hprev : prev ∈ Set.Icc (-179) 360) (haz : azimuth ∈ Set.Icc (-179) 179)
    (htwo : 180 < |homeFinal prev azimuth - prev|) : HomeSound prev azimuth ↔ |azimuth - prev| < 356 := by
  rw [homeFinal_eq haz.1 haz.2] at htwo
  constructor
  · intro hsound
    by_contra hge
    exact not_homeSound_of_ge haz.1 haz.2 hprev.1 hprev.2 (not_lt.mp hge) hsound
  · exact homeSound_of_lt haz.1 haz.2 hprev.1 hprev.2 htwo

theorem homeSound_iff_from_300 : HomeSound 300 0 ↔ |(0 : ℚ) - 300| < 356 :=
  homeSound_iff (by norm_num) (by norm_num) (by rw [homeFinal_eq (by norm_num) (by norm_num)]; norm_num [abs_of_neg])

/-- From 358 degrees the antenna is left at its waypoint, and at 360 the second leg is due at once. -/
theorem home_stalls :
    ((358 : ℚ) ∈ Set.Icc (-179) 360 ∧ (0 : ℚ) ∈ Set.Icc (-179) 179 ∧ 180 < |homeFinal 358 0 - 358|) ∧
      ¬ HomeSound 358 0 ∧ leg2At 360 0 360 = true := by
  refine ⟨⟨by norm_num, by norm_num, ?_⟩, ?_, by decide +kernel⟩
  · rw [homeFinal_eq (by norm_num) (by norm_num)]
    norm_num [abs_of_neg]
  · exact not_homeSound_of_ge (by norm_num) (by norm_num) (by norm_num) (by norm_num) (by norm_num [abs_of_neg])

end SimpleSatOps.Tracking
