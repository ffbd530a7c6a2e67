import SimpleSatOps.Control.Tracking
import SimpleSatOps.Lib.Machine

/-!
# The sky scan (`scan_sky.c`, `tracking.c`)

* `Scan`, `scanSkyStart`, `scanSkyStop`, `scanSkyTick` : the scan and the rows of its log;
* `settle`, `trackingTick` : a tick, as far as the scan goes;
* `Action`, `step` : ticks, readings of the position and statuses of the worker, in any order;
* `LogSound` : the rows `arrived` are in order, of targets the rotator was sent to, and a dwell apart;
* `Paced`, `Clean` : the ticks of a clock that has started, and those on which no move goes wrong;
* `scan_log_sound` : the log is sound, where a move that is not needed counts as made.

Angles and times are exact.
-/

namespace SimpleSatOps.ScanSky
open AntennaRotator Tracking

/-! ## The source -/

/-- `scan_target_t` -/
structure Target where
  azDeg : ℚ
  elDeg : ℚ
deriving DecidableEq

/-- The events of the log. -/
inductive Event
  | arrived | complete
deriving DecidableEq

/-- A row of the log: `scan_csv_log` on the tick at `tNow`, with no target for `NAN`. -/
structure Row where
  tNow : ℚ
  target : Option Target
  actual : ℚ × ℚ
  event : Event
deriving DecidableEq

/-- `scan_sky_t`, with the rows of the log that is open. -/
structure Scan where
  targets : List Target
  active : Bool
  idx : ℕ
  dwellStartS : ℚ
  csv : List Row

/-- What a tick sees: the rotator, the scan, and `last_az` and `last_el`. `turned`, which the source does not keep, is
the rotator as the scan found it when it turned to its target. -/
structure State where
  rot : Rot
  scan : Scan
  lastAz : ℚ
  lastEl : ℚ
  turned : Rot

def SCAN_DWELL_S : ℚ := 5

def MOTION_SETTLE_TOLERANCE_DEG : ℚ := 1 / 20

/-- The scan turns to a target. -/
def turn (s : State) (t : Target) : State :=
  { s with rot := (pointToStationaryTarget s.rot t.azDeg t.elDeg).2, turned := s.rot }

/-- `scan_csv_log` -/
def scanCsvLog (s : State) (tNow : ℚ) (target : Option Target) (event : Event) : State :=
  let r := s.rot.antennaRotator
  { s with scan := { s.scan with csv := s.scan.csv ++ [⟨tNow, target, (r.azimuth, r.elevation), event⟩] } }

/-- The targets of a scan; `built` is what `scan_build_targets` makes of the step. -/
def scanTargets (built : List Target) (s : State) : List Target :=
  if s.scan.targets = [] then built else s.scan.targets

/-- `scan_sky_start` -/
def scanSkyStart (built : List Target) (s : State) : State :=
  if s.scan.active then s
  else
    match scanTargets built s with
    | [] => s
    | t :: ts => turn { s with scan := ⟨t :: ts, true, 0, 0, []⟩ } t

/-- `scan_sky_stop` of a scan that is complete. -/
def scanSkyStop (s : State) (tNow : ℚ) : State :=
  if s.scan.active then
    let s := scanCsvLog s tNow none .complete
    { s with scan := { s.scan with active := false, idx := 0, dwellStartS := 0 } }
  else s

/-- The dwell is over. -/
def advance (s : State) (tNow : ℚ) : State :=
  let s := { s with scan := { s.scan with idx := s.scan.idx + 1, dwellStartS := 0 } }
  match s.scan.targets[s.scan.idx]? with
  | none => scanSkyStop s tNow
  | some t => turn s t

/-- `scan_sky_tick` -/
def scanSkyTick (s : State) (tNow : ℚ) : State :=
  if s.scan.active = false then s
  else
    match s.scan.targets[s.scan.idx]? with
    | none => scanSkyStop s tNow
    | some t =>
      if s.rot.antennaRotator.antennaIsMoving then s
      else if s.scan.dwellStartS ≤ 0 then
        scanCsvLog { s with scan := { s.scan with dwellStartS := tNow } } tNow (some t) .arrived
      else if tNow - s.scan.dwellStartS < SCAN_DWELL_S then s
      else advance s tNow

/-- Whether the position has hardly changed since the last tick. -/
def Settled (s : State) : Prop :=
  |s.rot.antennaRotator.azimuth - s.lastAz| < MOTION_SETTLE_TOLERANCE_DEG ∧
    |s.rot.antennaRotator.elevation - s.lastEl| < MOTION_SETTLE_TOLERANCE_DEG

instance (s : State) : Decidable (Settled s) := inferInstanceAs (Decidable (_ ∧ _))

/-- The motion of the antenna, in `tracking_tick`. -/
def settle (s : State) : State :=
  let r := s.rot.antennaRotator
  if r.antennaIsMoving then
    let moving := if Settled s then false else true
    { s with
      rot := { s.rot with antennaRotator := { r with antennaIsMoving := moving } }
      lastAz := r.azimuth, lastEl := r.elevation }
  else s

/-- `tracking_tick` in front of the scan. -/
def aim (s : State) : State :=
  let s := settle s
  { s with rot := homeTick s.rot }

/-- `tracking_tick`. The aim at a satellite is not entered: `scan_sky_start` has cleared `satellite_tracking`, and no
tick sets it. -/
def trackingTick (s : State) (tNow : ℚ) : State :=
  let s := aim s
  if s.scan.active then scanSkyTick s tNow else s

/-! ## Runs -/

/-- What happens while the scan is on. -/
inductive Action
  | reading (az el : ℚ)
  | status (snapshot : Option (ℚ × ℚ))
  | tick (tNow : ℚ)

def step (s : State) : Action → Option State
  | .reading az el =>
    some { s with
      rot := { s.rot with antennaRotator := { s.rot.antennaRotator with azimuth := az, elevation := el } } }
  | .status snapshot => some { s with rot := { s.rot with snapshot := snapshot } }
  | .tick tNow => some (trackingTick s tNow)

/-! ## The statement -/

/-- The target of a row `arrived`. -/
def Row.arrival (r : Row) : Option Target := if r.event = .arrived then r.target else none

/-- The targets of the rows `arrived`. -/
def arrivals (s : State) : List Target := s.scan.csv.filterMap Row.arrival

/-- The last position handed to the rotator is the target, up to full turns. -/
def Commanded (s : State) (t : Target) : Prop :=
  ∃ k : ℤ, s.rot.submitted.getLast? = some (t.azDeg + 360 * k, t.elDeg)

/-- The scan goes on from its target. -/
def Advances (s s' : State) : Prop := s.scan.active = true ∧ (s'.scan.active = false ∨ s'.scan.idx ≠ s.scan.idx)

/-- In every state reached by steps that are `ok` the rows `arrived` are of the first targets of the list, each target
once; every such row is written with `Aimed` for its target; and the scan goes on from a target no sooner than
`SCAN_DWELL_S` after its row. -/
structure LogSound (Aimed : State → Target → Prop) (ok : State → Action → Prop) (s₀ : State) : Prop where
  inOrder : ∀ s, Reaches step ok s₀ s → ∃ k, arrivals s = s.scan.targets.take k
  aimed : ∀ s tNow, Reaches step ok s₀ s → ok s (.tick tNow) → ∀ t actual,
    (trackingTick s tNow).scan.csv = s.scan.csv ++ [⟨tNow, some t, actual, .arrived⟩] → Aimed (trackingTick s tNow) t
  dwell : ∀ s tNow, Reaches step ok s₀ s → ok s (.tick tNow) → Advances s (trackingTick s tNow) →
    ∃ row, s.scan.csv.getLast? = some row ∧ row.event = .arrived ∧ row.target = s.scan.targets[s.scan.idx]? ∧
      SCAN_DWELL_S ≤ tNow - row.tNow

/-- The position a move starts from: a good status, or the last known target. -/
def found (rot : Rot) : Option Rotator :=
  match refreshTargetsFromSnapshot rot with
  | some rot => some rot.antennaRotator
  | none => if rot.antennaRotator.unwrappedTargetValid then some rot.antennaRotator else none

/-- The rotator is at the target already, within its deadband: no move is made. -/
def Here (rot : Rot) (t : Target) : Prop :=
  ∃ r, found rot = some r ∧
    |homeFinal r.targetAzimuthUnwrapped t.azDeg - r.targetAzimuthUnwrapped| ≤ MAX_DELTA_AZIMUTH_DEGREES ∧
    |t.elDeg - r.elevation| ≤ MAX_DELTA_ELEVATION_DEGREES

/-- A move to the target goes through, where one is needed: the position is known, the target is within the limits, and
a move in two steps is one to the horizon. -/
def Granted (rot : Rot) (t : Target) : Prop :=
  Here rot t ∨ ∃ r, found rot = some r ∧
    homeFinal r.targetAzimuthUnwrapped t.azDeg ∈ Set.Icc MINIMUM_AZIMUTH MAXIMUM_AZIMUTH ∧
    t.elDeg ∈ Set.Icc MINIMUM_ELEVATION MAXIMUM_ELEVATION ∧
    (180 < |homeFinal r.targetAzimuthUnwrapped t.azDeg - r.targetAzimuthUnwrapped| → t.elDeg = 0)

/-- The ticks are those of a clock that has started. -/
def Paced (_ : State) : Action → Prop
  | .tick tNow => 0 < tNow
  | _ => True

/-- As `Paced`; an antenna that settles on the way of a move in two steps does so where the second leg is due; and where
the dwell is over the move to the next target goes through. -/
def Clean (s : State) : Action → Prop
  | .tick tNow => 0 < tNow ∧
      (s.rot.antennaRotator.antennaIsMoving = true → s.rot.antennaRotator.homingInProgress = true → Settled s →
        s.rot.haveAntennaRotator = true ∧
          homeLeg2Ready s.rot.antennaRotator.azimuth s.rot.antennaRotator.targetAzimuthUnwrapped
            s.rot.antennaRotator.homePendingFinalAz HOME_ECHO_TOLERANCE_DEG = true) ∧
      (0 < s.scan.dwellStartS → SCAN_DWELL_S ≤ tNow - s.scan.dwellStartS →
        ∀ t, s.scan.targets[s.scan.idx + 1]? = some t → Granted s.rot t)
  | _ => True

/-- The rotator was sent to the target, or was there already when the scan turned to it. -/
def SentTo (s : State) (t : Target) : Prop := Commanded s t ∨ Here s.turned t

/-! ## The order of the rows -/

/-- The scan and its log: the rows `arrived` are those of the targets in front of the current one, and its own while the
scan dwells on it. -/
structure Ordered (scan : Scan) : Prop where
  idle : scan.active = false → ∃ k, scan.csv.filterMap Row.arrival = scan.targets.take k
  bound : scan.active = true → scan.idx < scan.targets.length
  waiting : scan.active = true → scan.dwellStartS ≤ 0 → scan.csv.filterMap Row.arrival = scan.targets.take scan.idx
  dwelling : scan.active = true → 0 < scan.dwellStartS →
    scan.csv.filterMap Row.arrival = scan.targets.take (scan.idx + 1) ∧
      ∃ actual, scan.csv.getLast? = some ⟨scan.dwellStartS, scan.targets[scan.idx]?, actual, .arrived⟩

theorem settle_scan (s : State) : (settle s).scan = s.scan ∧ (settle s).turned = s.turned := by
  rw [settle]
  dsimp only
  split_ifs <;> exact ⟨rfl, rfl⟩

theorem aim_scan (s : State) : (aim s).scan = s.scan ∧ (aim s).turned = s.turned := settle_scan s

/-- What a tick does to an active scan. -/
theorem scanSkyTick_cases {s : State} {t : Target} (hactive : s.scan.active = true)
    (ht : s.scan.targets[s.scan.idx]? = some t) (tNow : ℚ) :
    scanSkyTick s tNow = s ∨
      (s.rot.antennaRotator.antennaIsMoving = false ∧ s.scan.dwellStartS ≤ 0 ∧ scanSkyTick s tNow =
        scanCsvLog { s with scan := { s.scan with dwellStartS := tNow } } tNow (some t) .arrived) ∨
      (s.rot.antennaRotator.antennaIsMoving = false ∧ 0 < s.scan.dwellStartS ∧
        SCAN_DWELL_S ≤ tNow - s.scan.dwellStartS ∧ scanSkyTick s tNow = advance s tNow) := by
  rw [scanSkyTick, if_neg (by rw [hactive]; decide), ht]
  dsimp only
  by_cases hmoving : s.rot.antennaRotator.antennaIsMoving = true
  · rw [if_pos hmoving]
    exact .inl rfl
  · rw [if_neg hmoving]
    rw [Bool.not_eq_true] at hmoving
    by_cases hwait : s.scan.dwellStartS ≤ 0
    · rw [if_pos hwait]
      exact .inr (.inl ⟨hmoving, hwait, rfl⟩)
    · rw [if_neg hwait]
      by_cases hdwell : tNow - s.scan.dwellStartS < SCAN_DWELL_S
      · rw [if_pos hdwell]
        exact .inl rfl
      · rw [if_neg hdwell]
        exact .inr (.inr ⟨hmoving, not_le.mp hwait, not_lt.mp hdwell, rfl⟩)

/-- The scan goes on to the next target, or is complete. -/
theorem advance_cases {s : State} (hactive : s.scan.active = true) (tNow : ℚ) :
    (s.scan.targets[s.scan.idx + 1]? = none ∧ ∃ actual, (advance s tNow).scan =
      ⟨s.scan.targets, false, 0, 0, s.scan.csv ++ [⟨tNow, none, actual, .complete⟩]⟩) ∨
      ∃ t, s.scan.targets[s.scan.idx + 1]? = some t ∧
        advance s tNow = turn { s with scan := { s.scan with idx := s.scan.idx + 1, dwellStartS := 0 } } t := by
  rw [advance]
  dsimp only
  cases hnext : s.scan.targets[s.scan.idx + 1]? with
  | none =>
      refine .inl ⟨rfl, (s.rot.antennaRotator.azimuth, s.rot.antennaRotator.elevation), ?_⟩
      dsimp only
      rw [scanSkyStop, if_pos hactive]
      rfl
  | some t => exact .inr ⟨t, rfl, rfl⟩

/-- What a tick does while the scan is on. -/
theorem trackingTick_cases {s : State} {t : Target} (hactive : s.scan.active = true)
    (ht : s.scan.targets[s.scan.idx]? = some t) (tNow : ℚ) :
    trackingTick s tNow = aim s ∨
      ((aim s).rot.antennaRotator.antennaIsMoving = false ∧ s.scan.dwellStartS ≤ 0 ∧ trackingTick s tNow =
        scanCsvLog { aim s with scan := { s.scan with dwellStartS := tNow } } tNow (some t) .arrived) ∨
      ((aim s).rot.antennaRotator.antennaIsMoving = false ∧ 0 < s.scan.dwellStartS ∧
        SCAN_DWELL_S ≤ tNow - s.scan.dwellStartS ∧ trackingTick s tNow = advance (aim s) tNow) := by
  have hscan := (aim_scan s).1
  have htick : trackingTick s tNow = scanSkyTick (aim s) tNow := if_pos (by rw [hscan, hactive])
  have hcases := scanSkyTick_cases (s := aim s) (by rw [hscan, hactive]) (by rw [hscan, ht]) tNow
  rw [hscan] at hcases
  rw [htick]
  exact hcases

theorem trackingTick_idle {s : State} (hidle : s.scan.active = false) (tNow : ℚ) : trackingTick s tNow = aim s := by
  have hscan := (aim_scan s).1
  exact if_neg (by rw [hscan, hidle]; decide)

theorem Ordered.getElem? {scan : Scan} (h : Ordered scan) (hactive : scan.active = true) :
    ∃ t, scan.targets[scan.idx]? = some t := ⟨_, List.getElem?_eq_getElem (h.bound hactive)⟩

/-- A tick keeps the log in order. -/
theorem Ordered.tick {s : State} (h : Ordered s.scan) {tNow : ℚ} (hnow : 0 < tNow) :
    Ordered (trackingTick s tNow).scan := by
  have hscan := (aim_scan s).1
  cases hactive : s.scan.active with
  | false =>
      rw [trackingTick_idle hactive, hscan]
      exact h
  | true =>
      obtain ⟨t, ht⟩ := h.getElem? hactive
      have hnotidle : ¬ s.scan.active = false := by
        rw [hactive]
        decide
      rcases trackingTick_cases hactive ht tNow with heq | ⟨-, hwait, heq⟩ | ⟨-, hdwell, -, heq⟩
      · rw [heq, hscan]
        exact h
      · rw [heq]
        refine ⟨fun hidle => absurd hidle hnotidle, fun _ => h.bound hactive, fun _ hle => absurd hnow hle.not_gt,
          fun _ _ => ⟨?_, ?_⟩⟩
        · simp only [scanCsvLog, List.filterMap_append, h.waiting hactive hwait, List.take_add_one, ht]
          rfl
        · simp only [scanCsvLog, List.getLast?_concat, ht]
          exact ⟨_, rfl⟩
      · rw [heq]
        have hrows := (h.dwelling hactive hdwell).1
        rcases advance_cases (s := aim s) (by rw [hscan, hactive]) tNow with ⟨-, actual, hstop⟩ | ⟨t', hnext, hturn⟩
        · rw [hstop, hscan]
          refine ⟨fun _ => ⟨s.scan.idx + 1, ?_⟩, ?_, ?_, ?_⟩
          · dsimp only
            rw [List.filterMap_append, hrows]
            exact List.append_nil _
          · exact fun hon => absurd hon Bool.false_ne_true
          · exact fun hon => absurd hon Bool.false_ne_true
          · exact fun hon => absurd hon Bool.false_ne_true
        · rw [hturn]
          rw [hscan] at hnext
          have hlt := (List.getElem?_eq_some_iff.mp hnext).1
          show Ordered { (aim s).scan with idx := (aim s).scan.idx + 1, dwellStartS := 0 }
          rw [hscan]
          exact ⟨fun hidle => absurd hidle hnotidle, fun _ => hlt, fun _ _ => hrows,
            fun _ hpos => absurd hpos (lt_irrefl _)⟩

/-! ## Moves -/

/-- A move ends at a co-terminal of its target. -/
theorem homeFinal_coterminal (prev azimuth : ℚ) : ∃ k : ℤ, homeFinal prev azimuth = azimuth + 360 * k := by
  have hrounds : ∀ (ks : List ℤ) (best : Option ℚ), (∀ c, best = some c → ∃ k : ℤ, c = azimuth + 360 * k) →
      ∀ c, ks.foldl (homeRound prev azimuth) best = some c → ∃ k : ℤ, c = azimuth + 360 * k := by
    intro ks
    induction ks with
    | nil => exact fun _ h => h
    | cons k ks ih =>
        intro best hbest
        refine ih _ fun c hc => ?_
        unfold homeRound at hc
        dsimp only at hc
        split_ifs at hc with hout
        · exact hbest c hc
        · cases best with
          | none =>
              obtain rfl := Option.some.inj hc
              exact ⟨k, rfl⟩
          | some b =>
              dsimp only at hc
              split_ifs at hc
              · obtain rfl := Option.some.inj hc
                exact ⟨k, rfl⟩
              · exact hbest c hc
  rw [homeFinal, homeUnwrappedTarget]
  cases hbest : ([-2, -1, 0, 1, 2] : List ℤ).foldl (homeRound prev azimuth) none with
  | none => exact ⟨0, by rw [Option.getD_none, Int.cast_zero, mul_zero, add_zero]⟩
  | some c => exact hrounds _ none (fun c hc => absurd hc (by simp)) c hbest

/-- A move whose start is known. -/
theorem pointToStationaryTarget_found {rot : Rot} {r : Rotator} (h : found rot = some r) (azimuth elevation : ℚ) :
    pointToStationaryTarget rot azimuth elevation =
      let rot := { rot with antennaRotator := r }
      let prev := r.targetAzimuthUnwrapped
      let finalAz := homeFinal prev azimuth
      if |finalAz - prev| ≤ MAX_DELTA_AZIMUTH_DEGREES ∧ |elevation - r.elevation| ≤ MAX_DELTA_ELEVATION_DEGREES then
        (.ok, { rot with
          antennaRotator := { r with
            targetAzimuthUnwrapped := finalAz, targetAzimuth := finalAz, targetElevation := elevation,
            unwrappedTargetValid := true, homingInProgress := false, homePendingFinalAz := 0 } })
      else if 180 < |finalAz - prev| then
        let rot := { rot with antennaRotator := { r with homePendingFinalAz := finalAz, homingInProgress := true } }
        moving (mainRotatorSubmitSet rot (homeMid prev (finalAz - prev)) elevation)
      else
        let rot := { rot with antennaRotator := { r with homingInProgress := false, homePendingFinalAz := 0 } }
        moving (mainRotatorSubmitSet rot finalAz elevation) := by
  rw [found] at h
  rw [pointToStationaryTarget]
  cases hrefresh : refreshTargetsFromSnapshot rot with
  | none =>
      rw [hrefresh] at h
      dsimp only at h
      split_ifs at h with hvalid
      obtain rfl := Option.some.inj h
      have hknown : ¬ ((none : Option Rot).isNone = true ∧ rot.antennaRotator.unwrappedTargetValid = false) := by
        rw [hvalid]
        decide
      dsimp only
      rw [if_neg hknown]
      rfl
  | some rot' =>
      rw [hrefresh] at h
      obtain rfl := Option.some.inj h
      obtain ⟨p, -, rfl⟩ := Option.map_eq_some_iff.mp hrefresh
      dsimp only
      rw [if_neg (fun hp => absurd hp.1 Bool.false_ne_true)]
      rfl

theorem homeMid_mem (prev delta : ℚ) :
    ¬ (homeMid prev delta < MINIMUM_AZIMUTH ∨ MAXIMUM_AZIMUTH < homeMid prev delta) := by
  unfold homeMid MINIMUM_AZIMUTH MAXIMUM_AZIMUTH
  dsimp only
  rw [not_or, not_lt, not_lt]
  split_ifs <;> constructor <;> linarith

/-- A position within the limits is handed to the rotator. -/
theorem moving_submitSet {az el : ℚ} (haz : ¬ (az < MINIMUM_AZIMUTH ∨ MAXIMUM_AZIMUTH < az))
    (hel : el ∈ Set.Icc MINIMUM_ELEVATION MAXIMUM_ELEVATION) (rot : Rot) :
    moving (mainRotatorSubmitSet rot az el) = (.ok, { rot with
      antennaRotator := { rot.antennaRotator with
        targetAzimuthUnwrapped := az, targetAzimuth := az, targetElevation := el, unwrappedTargetValid := true
        antennaIsMoving := true }
      submitted := rot.submitted ++ [(az, el)] }) := by
  rw [mainRotatorSubmitSet, if_neg haz, if_neg (not_or.mpr ⟨hel.1.not_gt, hel.2.not_gt⟩)]
  rfl

/-- On the way of a move in two steps to the target. -/
structure OnWay (s : State) (t : Target) : Prop where
  homing : s.rot.antennaRotator.homingInProgress = true
  moving : s.rot.antennaRotator.antennaIsMoving = true
  pending : s.rot.antennaRotator.homePendingFinalAz ∈ Set.Icc MINIMUM_AZIMUTH MAXIMUM_AZIMUTH
  coterminal : ∃ k : ℤ, s.rot.antennaRotator.homePendingFinalAz = t.azDeg + 360 * k
  horizon : t.elDeg = 0

/-- Sent to the target for good. -/
structure Bound (s : State) (t : Target) : Prop where
  homing : s.rot.antennaRotator.homingInProgress = false
  sent : SentTo s t

theorem not_out_of_mem {az : ℚ} (h : az ∈ Set.Icc MINIMUM_AZIMUTH MAXIMUM_AZIMUTH) :
    ¬ (az < MINIMUM_AZIMUTH ∨ MAXIMUM_AZIMUTH < az) := not_or.mpr ⟨h.1.not_gt, h.2.not_gt⟩

/-- A move that goes through. -/
theorem turn_granted {s : State} {t : Target} (h : Granted s.rot t) : OnWay (turn s t) t ∨ Bound (turn s t) t := by
  rcases h with hhere | ⟨r, hfound, haz, hel, htwo⟩
  · obtain ⟨r, hfound, hnear⟩ := hhere
    refine .inr ⟨?_, .inr ⟨r, hfound, hnear⟩⟩
    rw [turn, pointToStationaryTarget_found hfound]
    dsimp only
    rw [if_pos hnear]
  · rw [turn, pointToStationaryTarget_found hfound]
    dsimp only
    obtain ⟨k, hk⟩ := homeFinal_coterminal r.targetAzimuthUnwrapped t.azDeg
    by_cases hnear : |homeFinal r.targetAzimuthUnwrapped t.azDeg - r.targetAzimuthUnwrapped| ≤
        MAX_DELTA_AZIMUTH_DEGREES ∧ |t.elDeg - r.elevation| ≤ MAX_DELTA_ELEVATION_DEGREES
    · rw [if_pos hnear]
      exact .inr ⟨rfl, .inr ⟨r, hfound, hnear⟩⟩
    · rw [if_neg hnear]
      by_cases hlong : 180 < |homeFinal r.targetAzimuthUnwrapped t.azDeg - r.targetAzimuthUnwrapped|
      · rw [if_pos hlong, moving_submitSet (homeMid_mem _ _) hel]
        exact .inl ⟨rfl, rfl, haz, ⟨k, hk⟩, htwo hlong⟩
      · rw [if_neg hlong, moving_submitSet (not_out_of_mem haz) hel]
        refine .inr ⟨rfl, .inl ⟨k, ?_⟩⟩
        dsimp only
        rw [List.getLast?_concat, hk]

theorem homeTick_idle {rot : Rot} (h : rot.antennaRotator.homingInProgress = false) : homeTick rot = rot := by
  rw [homeTick]
  exact if_neg fun hp => absurd (hp.1.symm.trans h) (by decide)

/-- What `tracking_tick` does to a move in two steps. -/
theorem aim_onWay {s : State} {t : Target} (h : OnWay s t)
    (hsettle : Settled s → s.rot.haveAntennaRotator = true ∧
      homeLeg2Ready s.rot.antennaRotator.azimuth s.rot.antennaRotator.targetAzimuthUnwrapped
        s.rot.antennaRotator.homePendingFinalAz HOME_ECHO_TOLERANCE_DEG = true) :
    OnWay (aim s) t ∨ Bound (aim s) t ∧ (aim s).rot.antennaRotator.antennaIsMoving = true := by
  have hsettled : settle s = { s with
      rot := { s.rot with
        antennaRotator := { s.rot.antennaRotator with antennaIsMoving := if Settled s then false else true } }
      lastAz := s.rot.antennaRotator.azimuth, lastEl := s.rot.antennaRotator.elevation } := if_pos h.moving
  rw [aim, hsettled]
  dsimp only
  by_cases hdue : s.rot.haveAntennaRotator = true ∧
      homeLeg2Ready s.rot.antennaRotator.azimuth s.rot.antennaRotator.targetAzimuthUnwrapped
        s.rot.antennaRotator.homePendingFinalAz HOME_ECHO_TOLERANCE_DEG = true
  · -- the second leg goes out, and the antenna is moving again
    have helevation : (0 : ℚ) ∈ Set.Icc MINIMUM_ELEVATION MAXIMUM_ELEVATION := by
      unfold MINIMUM_ELEVATION MAXIMUM_ELEVATION
      constructor <;> norm_num
    obtain ⟨k, hk⟩ := h.coterminal
    rw [homeTick]
    dsimp only
    rw [if_pos ⟨h.homing, hdue.1⟩, if_pos hdue.2, moving_submitSet (not_out_of_mem h.pending) helevation]
    refine .inr ⟨⟨rfl, .inl ⟨k, ?_⟩⟩, rfl⟩
    dsimp only
    rw [List.getLast?_concat, hk, h.horizon]
  · have hmoving : ¬ Settled s := fun hs => hdue (hsettle hs)
    rw [if_neg hmoving, homeTick]
    dsimp only
    by_cases hhave : s.rot.haveAntennaRotator = true
    · rw [if_pos ⟨h.homing, hhave⟩, if_neg fun hready => hdue ⟨hhave, hready⟩]
      exact .inl ⟨h.homing, rfl, h.pending, h.coterminal, h.horizon⟩
    · rw [if_neg fun hp => hhave hp.2]
      exact .inl ⟨h.homing, rfl, h.pending, h.coterminal, h.horizon⟩

/-- With no move in two steps `tracking_tick` only sees whether the antenna moves. -/
theorem aim_idle {s : State} (h : s.rot.antennaRotator.homingInProgress = false) :
    (aim s).rot.antennaRotator.homingInProgress = false ∧ (aim s).rot.submitted = s.rot.submitted ∧
      (s.rot.antennaRotator.antennaIsMoving = false → (aim s).rot = s.rot) := by
  have hsettled : (settle s).rot.antennaRotator.homingInProgress = false ∧
      (settle s).rot.submitted = s.rot.submitted ∧
      (s.rot.antennaRotator.antennaIsMoving = false → (settle s).rot = s.rot) := by
    rw [settle]
    dsimp only
    split_ifs with hmoving
    · exact ⟨h, rfl, fun hstill => absurd (hstill.symm.trans hmoving) (by decide)⟩
    · exact ⟨h, rfl, fun hstill => absurd (hstill.symm.trans hmoving) (by decide)⟩
    · exact ⟨h, rfl, fun _ => rfl⟩
  have haim : (aim s).rot = (settle s).rot := homeTick_idle hsettled.1
  rw [haim]
  exact hsettled

theorem Bound.aimed {s : State} {t : Target} (h : Bound s t) : Bound (aim s) t := by
  obtain ⟨hhoming, hsubmitted, -⟩ := aim_idle h.homing
  refine ⟨hhoming, h.sent.imp (fun hcmd => ?_) fun hhere => ?_⟩
  · rw [Commanded, hsubmitted]
    exact hcmd
  · rw [(aim_scan s).2]
    exact hhere

/-- The scan is on its way to its target, or was sent there, or dwells on it. -/
structure Underway (s : State) : Prop where
  waiting : s.scan.active = true → s.scan.dwellStartS ≤ 0 → ∀ t, s.scan.targets[s.scan.idx]? = some t →
    OnWay s t ∨ Bound s t
  dwelling : s.scan.active = true → 0 < s.scan.dwellStartS →
    s.rot.antennaRotator.antennaIsMoving = false ∧ s.rot.antennaRotator.homingInProgress = false

/-- In front of the scan a tick keeps to that. -/
theorem Underway.aimed {s : State} (h : Underway s) {tNow : ℚ} (hclean : Clean s (.tick tNow)) : Underway (aim s) := by
  obtain ⟨-, hsettle, -⟩ := hclean
  have hscan := (aim_scan s).1
  refine ⟨fun hactive hwait t ht => ?_, fun hactive hdwell => ?_⟩
  · rw [hscan] at hactive hwait ht
    rcases h.waiting hactive hwait t ht with hway | hbound
    · exact (aim_onWay hway (hsettle hway.moving hway.homing)).imp_right And.left
    · exact .inr hbound.aimed
  · rw [hscan] at hactive hdwell
    obtain ⟨hstill, hhoming⟩ := h.dwelling hactive hdwell
    rw [(aim_idle hhoming).2.2 hstill]
    exact ⟨hstill, hhoming⟩

/-- A tick on which no move goes wrong keeps to that. -/
theorem Underway.tick {s : State} (h : Underway s) (hord : Ordered s.scan) {tNow : ℚ} (hclean : Clean s (.tick tNow)) :
    Underway (trackingTick s tNow) := by
  have hscan := (aim_scan s).1
  have haim := h.aimed hclean
  cases hactive : s.scan.active with
  | false =>
      rw [trackingTick_idle hactive]
      exact haim
  | true =>
      obtain ⟨t, ht⟩ := hord.getElem? hactive
      rcases trackingTick_cases hactive ht tNow with heq | ⟨hstill, hwait, heq⟩ | ⟨-, hdwell, hover, heq⟩
      · rw [heq]
        exact haim
      · rw [heq]
        refine ⟨fun _ hle => absurd hclean.1 hle.not_gt, fun _ _ => ⟨hstill, ?_⟩⟩
        rcases haim.waiting (by rw [hscan, hactive]) (by rwa [hscan]) t (by rw [hscan, ht]) with hway | hbound
        · exact absurd (hstill.symm.trans hway.moving) (by decide)
        · exact hbound.homing
      · rw [heq]
        rcases advance_cases (s := aim s) (by rw [hscan, hactive]) tNow with ⟨-, actual, hstop⟩ | ⟨t', hnext, hturn⟩
        · have hidle : (advance (aim s) tNow).scan.active = false := by rw [hstop]
          exact ⟨fun hon => absurd (hidle.symm.trans hon) (by decide),
            fun hon => absurd (hidle.symm.trans hon) (by decide)⟩
        · rw [hscan] at hnext
          obtain ⟨hstill, hhoming⟩ := h.dwelling hactive hdwell
          have hgranted : Granted (aim s).rot t' := by
            rw [(aim_idle hhoming).2.2 hstill]
            exact hclean.2.2 hdwell hover t' hnext
          rw [hturn]
          refine ⟨fun _ _ t'' ht'' => ?_, fun _ hpos => absurd hpos (lt_irrefl _)⟩
          change (aim s).scan.targets[(aim s).scan.idx + 1]? = some t'' at ht''
          rw [hscan, hnext] at ht''
          obtain rfl := Option.some.inj ht''
          exact turn_granted hgranted

/-! ## Runs -/

theorem Clean.paced {s : State} {a : Action} (h : Clean s a) : Paced s a := by
  cases a with
  | tick tNow => exact h.1
  | reading az el => trivial
  | status snapshot => trivial

section
variable {s₀ s : State}

theorem Ordered.run (h₀ : Ordered s₀.scan) (h : Reaches step Paced s₀ s) : Ordered s.scan := by
  refine h.invariant (P := fun s => Ordered s.scan) h₀ fun t a u ht hok hstep => ?_
  cases a with
  | reading az el =>
      obtain rfl := Option.some.inj hstep
      exact ht
  | status snapshot =>
      obtain rfl := Option.some.inj hstep
      exact ht
  | tick tNow =>
      obtain rfl := Option.some.inj hstep
      exact ht.tick hok

theorem Underway.run (h₀ : Ordered s₀.scan ∧ Underway s₀) (h : Reaches step Clean s₀ s) :
    Ordered s.scan ∧ Underway s := by
  refine h.invariant (P := fun s => Ordered s.scan ∧ Underway s) h₀ fun t a u ht hok hstep => ?_
  cases a with
  | reading az el =>
      obtain rfl := Option.some.inj hstep
      refine ⟨ht.1, fun hactive hwait target htarget => ?_, ht.2.dwelling⟩
      exact (ht.2.waiting hactive hwait target htarget).imp (fun h => ⟨h.1, h.2, h.3, h.4, h.5⟩) fun h => ⟨h.1, h.2⟩
  | status snapshot =>
      obtain rfl := Option.some.inj hstep
      refine ⟨ht.1, fun hactive hwait target htarget => ?_, ht.2.dwelling⟩
      exact (ht.2.waiting hactive hwait target htarget).imp (fun h => ⟨h.1, h.2, h.3, h.4, h.5⟩) fun h => ⟨h.1, h.2⟩
  | tick tNow =>
      obtain rfl := Option.some.inj hstep
      exact ⟨ht.1.tick hok.1, ht.2.tick ht.1 hok⟩

/-- A row `arrived` is written where the antenna has stopped on the way to its target. -/
theorem arrived_cases {s : State} (hord : Ordered s.scan) {tNow : ℚ} {t : Target} {actual : ℚ × ℚ}
    (hrow : (trackingTick s tNow).scan.csv = s.scan.csv ++ [⟨tNow, some t, actual, .arrived⟩]) :
    s.scan.active = true ∧ s.scan.dwellStartS ≤ 0 ∧ s.scan.targets[s.scan.idx]? = some t ∧
      (aim s).rot.antennaRotator.antennaIsMoving = false ∧ (trackingTick s tNow).rot = (aim s).rot ∧
      (trackingTick s tNow).turned = (aim s).turned := by
  have hscan := (aim_scan s).1
  have hgrows : ∀ {rows : List Row} {row : Row}, rows ≠ rows ++ [row] := by
    intro rows row heq
    have hlen := congrArg List.length heq
    rw [List.length_append, List.length_singleton] at hlen
    omega
  cases hactive : s.scan.active with
  | false =>
      rw [trackingTick_idle hactive, hscan] at hrow
      exact absurd hrow hgrows
  | true =>
      obtain ⟨t', ht⟩ := hord.getElem? hactive
      rcases trackingTick_cases hactive ht tNow with heq | ⟨hstill, hwait, heq⟩ | ⟨-, -, -, heq⟩
      · rw [heq, hscan] at hrow
        exact absurd hrow hgrows
      · rw [heq] at hrow ⊢
        have hlast := List.append_cancel_left (hrow : s.scan.csv ++ [_] = _)
        obtain rfl : t' = t := Option.some.inj (congrArg Row.target (List.cons.inj hlast).1)
        exact ⟨rfl, hwait, ht, hstill, rfl, rfl⟩
      · rw [heq] at hrow
        rcases advance_cases (s := aim s) (by rw [hscan, hactive]) tNow with ⟨-, actual', hstop⟩ | ⟨t'', -, hturn⟩
        · rw [hstop, hscan] at hrow
          have hlast := List.append_cancel_left hrow
          exact Event.noConfusion (congrArg Row.event (List.cons.inj hlast).1)
        · rw [hturn] at hrow
          change (aim s).scan.csv = _ at hrow
          rw [hscan] at hrow
          exact absurd hrow hgrows

/-- The scan goes on where a dwell is over. -/
theorem advances_cases {s : State} (hord : Ordered s.scan) {tNow : ℚ} (h : Advances s (trackingTick s tNow)) :
    0 < s.scan.dwellStartS ∧ SCAN_DWELL_S ≤ tNow - s.scan.dwellStartS := by
  obtain ⟨hactive, hgoes⟩ := h
  have hscan := (aim_scan s).1
  obtain ⟨t, ht⟩ := hord.getElem? hactive
  have hstays : ∀ {scan : Scan}, scan.active = s.scan.active → scan.idx = s.scan.idx →
      ¬ (scan.active = false ∨ scan.idx ≠ s.scan.idx) := by
    intro scan hsame hidx hor
    rcases hor with hoff | hne
    · exact absurd ((hsame.trans hactive).symm.trans hoff) (by decide)
    · exact hne hidx
  rcases trackingTick_cases hactive ht tNow with heq | ⟨-, -, heq⟩ | ⟨-, hdwell, hover, -⟩
  · rw [heq, hscan] at hgoes
    exact absurd hgoes (hstays rfl rfl)
  · rw [heq] at hgoes
    exact absurd hgoes (hstays rfl rfl)
  · exact ⟨hdwell, hover⟩

end

/-- The scan as it starts. -/
theorem scanSkyStart_eq {built : List Target} {s : State} (hidle : s.scan.active = false) {t : Target}
    (hfirst : (scanTargets built s).head? = some t) :
    scanSkyStart built s = turn { s with scan := ⟨scanTargets built s, true, 0, 0, []⟩ } t := by
  rw [scanSkyStart, if_neg (by rw [hidle]; decide)]
  cases hts : scanTargets built s with
  | nil =>
      rw [hts] at hfirst
      exact absurd hfirst (by simp)
  | cons t' ts =>
      rw [hts] at hfirst
      obtain rfl := Option.some.inj hfirst
      rfl

/-- **The log of a sky scan**: on a clock that has started the rows `arrived` are of the targets in the order of the
list, each once, and the scan goes on from a target no sooner than the dwell after its row. As long as every move goes
through that is needed, and no move in two steps is taken for settled before its second leg is due, each row is written
where the last position handed to the rotator was that of its target, or the rotator was at the target already when the
scan turned to it. -/
theorem scan_log_sound (built : List Target) {s : State} (hidle : s.scan.active = false) {t : Target}
    (hfirst : (scanTargets built s).head? = some t) :
    LogSound (fun _ _ => True) Paced (scanSkyStart built s) ∧
      (Granted s.rot t → LogSound SentTo Clean (scanSkyStart built s)) := by
  have hstart := scanSkyStart_eq hidle hfirst
  have hzero : (scanTargets built s)[0]? = some t := by rw [← List.head?_eq_getElem?, hfirst]
  have hord : Ordered (scanSkyStart built s).scan := by
    rw [hstart]
    refine ⟨fun hoff => absurd hoff.symm Bool.false_ne_true, fun _ => ?_, fun _ _ => rfl,
      fun _ hpos => absurd hpos (lt_irrefl _)⟩
    exact (List.getElem?_eq_some_iff.mp hzero).1
  have hinOrder : ∀ u, Reaches step Paced (scanSkyStart built s) u → ∃ k, arrivals u = u.scan.targets.take k := by
    intro u hu
    have hordu := hord.run hu
    cases hactive : u.scan.active with
    | false => exact hordu.idle hactive
    | true =>
        rcases le_or_gt u.scan.dwellStartS 0 with hwait | hdwell
        · exact ⟨_, hordu.waiting hactive hwait⟩
        · exact ⟨_, (hordu.dwelling hactive hdwell).1⟩
  have hdwell : ∀ u tNow, Reaches step Paced (scanSkyStart built s) u → Advances u (trackingTick u tNow) →
      ∃ row, u.scan.csv.getLast? = some row ∧ row.event = .arrived ∧ row.target = u.scan.targets[u.scan.idx]? ∧
        SCAN_DWELL_S ≤ tNow - row.tNow := by
    intro u tNow hu hadv
    have hordu := hord.run hu
    obtain ⟨hpos, hover⟩ := advances_cases hordu hadv
    obtain ⟨-, actual, hlast⟩ := hordu.dwelling hadv.1 hpos
    exact ⟨_, hlast, rfl, rfl, hover⟩
  refine ⟨⟨hinOrder, fun _ _ _ _ _ _ _ => trivial, fun u tNow hu _ => hdwell u tNow hu⟩, fun hgranted => ?_⟩
  have hway : Underway (scanSkyStart built s) := by
    rw [hstart]
    refine ⟨fun _ _ t' ht' => ?_, fun _ hpos => absurd hpos (lt_irrefl _)⟩
    change (scanTargets built s)[0]? = some t' at ht'
    obtain rfl := Option.some.inj (hzero.symm.trans ht')
    exact turn_granted hgranted
  have hpaced : ∀ {u}, Reaches step Clean (scanSkyStart built s) u → Reaches step Paced (scanSkyStart built s) u :=
    fun hu => hu.mono fun _ _ hok => hok.paced
  refine ⟨fun u hu => hinOrder u (hpaced hu), fun u tNow hu hok t' actual hrow => ?_,
    fun u tNow hu _ => hdwell u tNow (hpaced hu)⟩
  obtain ⟨hordu, hunder⟩ := Underway.run ⟨hord, hway⟩ hu
  obtain ⟨hactive, hwait, ht', hstill, hrot, hturned⟩ := arrived_cases hordu hrow
  have hscan := (aim_scan u).1
  have haim := (hunder.aimed hok).waiting (by rw [hscan, hactive]) (by rwa [hscan]) t' (by rw [hscan, ht'])
  rcases haim with hway' | hbound
  · exact absurd (hstill.symm.trans hway'.moving) (by decide)
  · have hsent := hbound.sent
    rw [SentTo, Commanded] at hsent ⊢
    rw [hrot, hturned]
    exact hsent

/-- A rotator at home, and two targets to scan. -/
def atHome : State where
  rot := ⟨⟨0, 0, 0, 0, 0, true, 0, false, false⟩, true, some (0, 0), []⟩
  scan := ⟨[⟨0, 0⟩, ⟨90, 10⟩], false, 0, 0, []⟩
  lastAz := 0
  lastEl := 0
  turned := ⟨⟨0, 0, 0, 0, 0, true, 0, false, false⟩, true, some (0, 0), []⟩

theorem here_atHome : Here atHome.rot ⟨0, 0⟩ := by
  refine ⟨_, rfl, ?_⟩
  dsimp only
  rw [homeFinal_eq (by norm_num) (by norm_num)]
  norm_num [MAX_DELTA_AZIMUTH_DEGREES, MAX_DELTA_ELEVATION_DEGREES]

theorem scan_log_sound_atHome : LogSound (fun _ _ => True) Paced (scanSkyStart [] atHome) ∧
    LogSound SentTo Clean (scanSkyStart [] atHome) := by
  obtain ⟨hpaced, hclean⟩ := scan_log_sound [] (s := atHome) rfl (t := ⟨0, 0⟩) rfl
  exact ⟨hpaced, hclean (.inl here_atHome)⟩

/-- At home the first target is there already: its row is written though no position was handed to the rotator. -/
theorem scan_log_uncommanded : ¬ ∀ (built : List Target) (s : State) (t : Target), s.scan.active = false →
    (scanTargets built s).head? = some t → LogSound Commanded Free (scanSkyStart built s) := by
  intro h
  have hsound := h [] atHome ⟨0, 0⟩ rfl rfl
  have hrow : (trackingTick (scanSkyStart [] atHome) 1).scan.csv =
      (scanSkyStart [] atHome).scan.csv ++ [⟨1, some ⟨0, 0⟩, (0, 0), .arrived⟩] := by decide +kernel
  obtain ⟨k, hk⟩ := hsound.aimed _ 1 .refl trivial _ _ hrow
  have hnone : (trackingTick (scanSkyStart [] atHome) 1).rot.submitted = [] := by decide +kernel
  rw [hnone] at hk
  exact absurd hk (by simp)

end SimpleSatOps.ScanSky
