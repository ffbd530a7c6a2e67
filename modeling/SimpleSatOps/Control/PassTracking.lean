import SimpleSatOps.Control.ScanSky
import SimpleSatOps.Lib.Bisect
import SimpleSatOps.Orbit.Pursuit

/-!
# Following a pass (`tracking.c`)

* `toMechCoords`, `accumulateUnwrapped` : the direction of the satellite in the rotator's coordinates;
* `Track`, `pursuitTrackBuild`, `pursuitTrackLookup` : the pass in them, sampled before it is planned;
* `mainPursuitBuildPlan` : the plan that is kept;
* `State`, `trackingTick`, `Command`, `turn`, `run` : a turn of the main loop.

Angles and times are exact. The elevation under which the satellite stands over the boom of a flipped pass is a
parameter, as the orbit is.
-/

namespace SimpleSatOps.PassTracking
open AntennaRotator Tracking
open Pursuit (Plan Sampler pursuitPlanBuild)

/-! ## The rotator's coordinates -/

/-- `antenna_rotator_accumulate_unwrapped` -/
def accumulateUnwrapped (prev predAz : ℚ) : ℚ := prev + wrapToPm180 (predAz - prev)

/-- The azimuth of the boom at a time of a flipped pass. -/
def meridian (aosAz losAz progress : ℚ) : ℚ :=
  aosAz + Chain.clamp progress 0 1 * wrapToPm180 (losAz + 180 - aosAz)

/-- `antenna_rotator_to_mech_coords`, with the half; `boomEl` is the elevation over a boom that is that far from the
satellite in azimuth. -/
def toMechCoords (boomEl : ℚ → ℚ → ℚ) (flip : Bool) (aosAz losAz progress satAz satEl : ℚ) : ℚ × ℚ × ℕ :=
  if flip = false ∨ MAXIMUM_ELEVATION ≤ 90 then (satAz, satEl, 0)
  else
    let az := meridian aosAz losAz progress
    (az, boomEl (satAz - az) satEl, 0)

/-! ## The track of a pass -/

/-- `pursuit_track_t` -/
structure Track where
  n : ℕ
  tJul : ℕ → ℚ
  azUnwrapped : ℕ → ℚ
  el : ℕ → ℚ

/-- `pursuit_track_lookup`; `none` for -1. -/
def pursuitTrackLookup (trk : Track) (jul : ℚ) : Option (ℚ × ℚ) :=
  if trk.n = 0 then none
  else if jul ≤ trk.tJul 0 then some (trk.azUnwrapped 0, trk.el 0)
  else if trk.tJul (trk.n - 1) ≤ jul then some (trk.azUnwrapped (trk.n - 1), trk.el (trk.n - 1))
  else
    let lo := Bisect.bisect (fun k => trk.tJul k ≤ jul) 0 (trk.n - 1)
    let frac := (jul - trk.tJul lo) / (trk.tJul (lo + 1) - trk.tJul lo)
    some (trk.azUnwrapped lo + (trk.azUnwrapped (lo + 1) - trk.azUnwrapped lo) * frac,
      trk.el lo + (trk.el (lo + 1) - trk.el lo) * frac)

/-- What is predicted: the direction of the satellite at a time and now, and the pass that comes next or is on. -/
structure Prediction where
  position : ℚ → ℚ × ℚ
  azimuth : ℚ
  elevation : ℚ
  minutesUntilVisible : ℚ
  maxElevation : ℚ
  ascensionAzimuth : ℚ
  descentAzimuth : ℚ
  ascensionJulUtc : ℚ
  descentJulUtc : ℚ

/-- The fields of `antenna_rotator_t` that go with a pass. -/
structure Flip where
  modePass : Bool
  aosAz : ℚ
  losAz : ℚ
  aosJul : ℚ
  losJul : ℚ

/-- How far a flipped pass has come. -/
def Flip.progress (f : Flip) (t : ℚ) : ℚ :=
  if 0 < f.losJul - f.aosJul then (t - f.aosJul) / (f.losJul - f.aosJul) else 0

/-- The number of samples of a pass. -/
def trackCount (julAos julLos : ℚ) : ℕ :=
  let n := ⌊(julLos - julAos) / (1 / 86400)⌋₊ + 1
  let n := if n < 2 then 2 else n
  if 4096 < n then 4096 else n

section Build
variable (boomEl : ℚ → ℚ → ℚ)

/-- Where the rotator has to point at a time of the pass. -/
def mechAt (pred : Prediction) (f : Flip) (t : ℚ) : ℚ × ℚ :=
  if f.modePass then
    let m := toMechCoords boomEl true f.aosAz f.losAz (f.progress t) (pred.position t).1 (pred.position t).2
    (m.1, m.2.1)
  else pred.position t

/-- The azimuths of a track, each carried on from the one before. -/
def carry (az : ℕ → ℚ) (start : ℚ) : ℕ → ℚ
  | 0 => accumulateUnwrapped start (az 0)
  | i + 1 => accumulateUnwrapped (carry az start i) (az (i + 1))

/-- `pursuit_track_build`; `none` for -1. Memory for the samples is never refused. -/
def pursuitTrackBuild (pred : Prediction) (f : Flip) (julAos julLos a0Unwrapped : ℚ) : Option Track :=
  if julLos ≤ julAos then none
  else
    let n := trackCount julAos julLos
    let t (i : ℕ) : ℚ := julAos + (i : ℚ) / ((n - 1 : ℕ) : ℚ) * (julLos - julAos)
    some { n := n, tJul := t, azUnwrapped := carry (fun i => (mechAt boomEl pred f (t i)).1) a0Unwrapped,
           el := fun i => (mechAt boomEl pred f (t i)).2 }

/-! ## The plan of a pass -/

/-- What the session is started with. -/
structure Settings where
  pursuitAzDps : ℚ
  pursuitElDps : ℚ
  withoutRotatorPursuit : Bool
  fixedTarget : Bool
  antennaShouldBeControlled : Bool
  trackingPrepTimeMinutes : ℚ
  runWithAntennaRotator : Bool

/-- `pursuit_config_defaults`, with what `main_pursuit_build_plan` fills in. -/
def planConfig (cfg : Settings) (r : Rotator) (julAos julLos : ℚ) : Pursuit.Config where
  julAos := julAos
  julLos := julLos
  waypointDtS := 5
  denseDtS := 1
  maxIter := 6
  costImprovementEps := 5 / 1000
  rAzDps := cfg.pursuitAzDps
  rElDps := cfg.pursuitElDps
  azMin := -179
  azMax := 539
  elMin := -5
  elMax := 180
  a0Unwrapped := r.targetAzimuthUnwrapped
  e0 := r.targetElevation

/-- The track as the planner sees it. -/
def sampler (trk : Track) : Sampler Unit := fun s t => (s, pursuitTrackLookup trk t)

/-- Where the plan of a pass begins: at once, in the middle of a pass. -/
def planStart (pred : Prediction) (julNow : ℚ) : ℚ :=
  if pred.ascensionJulUtc < julNow then julNow else pred.ascensionJulUtc

/-- `main_pursuit_build_plan`: the track and the plan, where one is kept. -/
def mainPursuitBuildPlan (cfg : Settings) (rot : Rot) (pred : Prediction) (f : Flip) (julNow : ℚ) :
    Option (Track × Plan) :=
  if cfg.withoutRotatorPursuit then none
  else if cfg.pursuitAzDps ≤ 0 ∨ cfg.pursuitElDps ≤ 0 then none
  else if rot.haveAntennaRotator = false ∨ rot.antennaRotator.unwrappedTargetValid = false then none
  else if pred.ascensionJulUtc ≤ 0 ∨ pred.descentJulUtc ≤ pred.ascensionJulUtc then none
  else
    let aos := planStart pred julNow
    if pred.descentJulUtc - aos < 5 / 86400 then none
    else
      match pursuitTrackBuild boomEl pred f aos pred.descentJulUtc rot.antennaRotator.targetAzimuthUnwrapped with
      | none => none
      | some trk =>
        match pursuitPlanBuild (planConfig cfg rot.antennaRotator aos pred.descentJulUtc) (sampler trk) () with
        | none => none
        | some plan =>
          -- the errors are kept as squares
          if ∃ e ∈ plan.squaredErrors, 30 ^ 2 < e then none else some (trk, plan)

end Build

/-- The first waypoint behind a time, from the front. -/
def nextWaypoint (ws : List Pursuit.Waypoint) (jul : ℚ) : Option Pursuit.Waypoint :=
  match ws.tail.find? (fun w => jul < w.julUtc) with
  | some w => some w
  | none => ws.getLast?

/-- `pursuit_aim_at`; `none` for -1. -/
def pursuitAimAt (plan : Plan) (jul : ℚ) : Option (ℚ × ℚ) :=
  match plan.waypoints.head?, plan.waypoints.getLast? with
  | some first, some last =>
    if jul < first.julUtc then none
    else if last.julUtc < jul then none
    else (nextWaypoint plan.waypoints jul).map fun w => (w.azUnwrapped, w.el)
  | _, _ => none

/-! ## State -/

/-- What a pass was entered with, and the plan that was made. The code keeps the plan alone. -/
structure Entry where
  jul : ℚ
  rot : Rot
  prediction : Prediction
  flip : Flip

/-- What a position was handed over for: the plan, or the satellite where it stood, with the flip at the time. -/
inductive Aim where
  | waypoint
  | satellite (az el : ℚ) (flip : Flip)

/-- A position that was handed over to follow a pass, with where the rotator had been sent before. The code keeps no
such record. -/
structure Order where
  jul : ℚ
  entry : Option Entry
  aim : Aim
  prevAz : ℚ
  prevEl : ℚ
  az : ℚ
  el : ℚ

/-- The state of the main loop that `tracking_tick` works on. -/
structure State where
  sky : ScanSky.State
  satelliteTracking : Bool
  inPass : Bool
  tracking : Bool
  antennaIsUnderControl : Bool
  flip : Flip
  flipDecisionMade : Bool
  flipHalf : ℕ
  pursuit : Option (Track × Plan)
  prediction : Prediction
  entry : Option Entry
  orders : List Order

/-- The flip of the pass is forgotten. -/
def State.unlatch (s : State) : State :=
  { s with flip := { s.flip with modePass := false }, flipDecisionMade := false, flipHalf := 0 }

/-- The rotator as `tracking_tick` sees it. -/
abbrev State.rotator (s : State) : Rotator := s.sky.rot.antennaRotator

def State.withRot (s : State) (rot : Rot) : State := { s with sky := { s.sky with rot := rot } }

/-- What `point_to_stationary_target` does in front of its move. -/
def State.release (s : State) : State :=
  { s.unlatch with satelliteTracking := false, antennaIsUnderControl := false }

/-- The pass is given up: tracking ends and the plan is dropped. -/
def State.giveUp (s : State) : State := { s with tracking := false, pursuit := none }

/-! ## A tick -/

section Tick
variable (boomEl : ℚ → ℚ → ℚ) (cfg : Settings)

/-- The flip of a pass, as it is decided on entering it. -/
def decideFlip (s : State) : Flip :=
  if 90 < MAXIMUM_ELEVATION ∧ 75 ≤ s.prediction.maxElevation then
    { modePass := true
      aosAz := if s.prediction.ascensionAzimuth ≠ 0 then s.prediction.ascensionAzimuth else s.prediction.azimuth
      losAz := s.prediction.descentAzimuth
      aosJul := s.prediction.ascensionJulUtc
      losJul := s.prediction.descentJulUtc }
  else { s.flip with modePass := false }

/-- The pass is entered, once. -/
def enterPass (jul : ℚ) (s : State) : State :=
  if cfg.antennaShouldBeControlled ∧ s.tracking = false ∧ cfg.fixedTarget = false ∧ s.flipDecisionMade = false then
    let f := decideFlip s
    { s with
      flip := f, flipHalf := 0, flipDecisionMade := true, tracking := true
      pursuit := mainPursuitBuildPlan boomEl cfg s.sky.rot s.prediction f jul
      entry := some ⟨jul, s.sky.rot, s.prediction, f⟩ }
  else s

/-- The next position, with what it is for: the plan's, or the satellite's as it stands now. The second part is the
state with a new half of the pass. -/
def nextAim (jul : ℚ) (s : State) : Aim × ℚ × ℚ × State :=
  let aim : Aim := .satellite s.prediction.azimuth s.prediction.elevation s.flip
  match s.pursuit.bind fun p => pursuitAimAt p.2 jul with
  | some (az, el) => (.waypoint, az, el, s)
  | none =>
    let m := toMechCoords boomEl s.flip.modePass s.flip.aosAz s.flip.losAz (s.flip.progress jul) s.prediction.azimuth
      s.prediction.elevation
    let s :=
      if s.flip.modePass ∧ m.2.2 ≠ s.flipHalf then
        { s.withRot { s.sky.rot with antennaRotator := { s.rotator with targetAzimuthUnwrapped := m.1 } } with
          flipHalf := m.2.2 }
      else s
    (aim, accumulateUnwrapped s.rotator.targetAzimuthUnwrapped m.1, m.2.1, s)

/-- A position is handed over, unless it is nearly the last one; beyond the limits of the azimuth the pass is given
up. -/
def handOver (jul : ℚ) (aim : Aim) (az el : ℚ) (s : State) : State :=
  let el := Chain.clamp el MINIMUM_ELEVATION MAXIMUM_ELEVATION
  let prev := s.rotator.targetAzimuthUnwrapped
  let deltaEl :=
    if aim matches .waypoint ∨ s.flip.modePass ∨ 0 ≤ s.prediction.elevation then el - s.rotator.targetElevation else 0
  if MAX_DELTA_AZIMUTH_DEGREES ≤ |az - prev| ∨ MAX_DELTA_ELEVATION_DEGREES ≤ |deltaEl| then
    if az < MINIMUM_AZIMUTH ∨ MAXIMUM_AZIMUTH < az then s.giveUp
    else
      let r := moving (mainRotatorSubmitSet s.sky.rot az el)
      let order : Order := ⟨jul, s.entry, aim, prev, s.rotator.targetElevation, az, el⟩
      { s.withRot r.2 with orders := if r.1 = .ok then s.orders ++ [order] else s.orders }
  else s

/-- The aim at the satellite. -/
def aimTick (jul : ℚ) (s : State) : State :=
  if s.tracking ∧ s.antennaIsUnderControl then
    if s.rotator.unwrappedTargetValid = false then
      match refreshTargetsFromSnapshot s.sky.rot with
      | none => s.giveUp
      | some rot => s.withRot rot
    else if s.rotator.antennaIsMoving = false then
      let (aim, az, el, s) := nextAim boomEl jul s
      handOver jul aim az el s
    else s
  else s

/-- Whether the pass is near enough to be followed. -/
def State.Near (cfg : Settings) (s : State) : Prop :=
  s.satelliteTracking = true ∧ s.prediction.minutesUntilVisible < cfg.trackingPrepTimeMinutes

instance (s : State) : Decidable (s.Near cfg) := inferInstanceAs (Decidable (_ ∧ _))

/-- The satellite's part of `tracking_tick`. -/
def passTick (jul : ℚ) (s : State) : State :=
  if s.Near cfg then aimTick boomEl jul (enterPass boomEl cfg jul { s with inPass := true })
  else
    let s := { s with inPass := false }
    if s.tracking then s.unlatch.giveUp else s

/-- `tracking_tick`. A scan that turns to its next target releases the rotator. -/
def trackingTick (jul tNow : ℚ) (s : State) : State :=
  let sky := ScanSky.trackingTick s.sky tNow
  let turned := sky.scan.active = true ∧ sky.scan.idx ≠ s.sky.scan.idx
  passTick boomEl cfg jul { (if turned then s.release else s) with sky := sky }

/-! ## Turns -/

/-- What the operator does with the rotator; `waited` is whether a good status came in time after a stop. -/
inductive Command where
  | track
  | scan (built : List ScanSky.Target)
  | stopKey (waited : Bool)
  | stop (waited : Bool)
  | home (waited : Bool)
  | jogAzimuth (delta : ℚ)
  | jogElevation (delta : ℚ)
  | retarget (prediction : Prediction)

/-- `start_tracking` -/
def startTracking (s : State) : State :=
  let s := { s.unlatch with satelliteTracking := true, antennaIsUnderControl := cfg.antennaShouldBeControlled }
  if cfg.fixedTarget then
    s.withRot (moving (mainRotatorSubmitSet s.sky.rot s.rotator.targetAzimuthUnwrapped s.rotator.targetElevation)).2
  else s

/-- `stop_tracking` -/
def stopTracking (waited : Bool) (s : State) : State :=
  let rot :=
    if cfg.runWithAntennaRotator ∧ waited then (refreshTargetsFromSnapshot s.sky.rot).getD s.sky.rot else s.sky.rot
  { s.release.withRot { rot with
      antennaRotator := { rot.antennaRotator with
        antennaIsMoving := false, homingInProgress := false, homePendingFinalAz := 0 } } with
    satelliteTracking := false }

/-- `kb_act_jog`, with `main_rotator_increase_azimuth` and `main_rotator_increase_elevation`. -/
def jog (deltaAz deltaEl : ℚ) (s : State) : State :=
  let base := if s.rotator.unwrappedTargetValid then s.rotator.targetAzimuthUnwrapped else s.rotator.targetAzimuth
  let s := { s with satelliteTracking := false, antennaIsUnderControl := false }
  s.withRot (moving (mainRotatorSubmitSet s.sky.rot (base + deltaAz) (s.rotator.targetElevation + deltaEl))).2

def command (s : State) : Command → State
  | .track => startTracking cfg s
  | .scan built =>
    let sky := ScanSky.scanSkyStart built s.sky
    if s.sky.scan.active = false ∧ ScanSky.scanTargets built s.sky ≠ [] then
      { s.release with sky := sky, tracking := false }
    else s
  | .stopKey waited =>
    let scan := { s.sky.scan with active := false, idx := 0, dwellStartS := 0 }
    stopTracking cfg waited (if s.sky.scan.active then { s with sky := { s.sky with scan := scan } } else s)
  | .stop waited => stopTracking cfg waited s
  | .home waited =>
    let s := (stopTracking cfg waited s).release
    s.withRot (pointToStationaryTarget s.sky.rot 0 0).2
  | .jogAzimuth delta => jog delta 0 s
  | .jogElevation delta => jog 0 delta s
  | .retarget prediction => { s.unlatch.giveUp with prediction := prediction }

/-- A turn of the main loop: the satellite moves on, the tick, the status that is read and the new prediction, and a
command. The worker's status is the one the tick finds, and later the one the command finds. -/
structure Turn where
  jul : ℚ
  tNow : ℚ
  direction : ℚ × ℚ
  snapshot : Option (ℚ × ℚ)
  reading : ℚ × ℚ
  prediction : Prediction
  later : Option (ℚ × ℚ)
  command : Option Command

def turn (s : State) (t : Turn) : State :=
  let s := { s with
    prediction := { s.prediction with azimuth := t.direction.1, elevation := t.direction.2 }
    sky := { s.sky with rot := { s.sky.rot with snapshot := t.snapshot } } }
  let s := trackingTick boomEl cfg t.jul t.tNow s
  let r := { s.rotator with azimuth := t.reading.1, elevation := t.reading.2 }
  let s := { s.withRot { s.sky.rot with antennaRotator := r, snapshot := t.later } with prediction := t.prediction }
  t.command.elim s (command cfg s)

/-- Start-up. -/
def init (haveAntennaRotator : Bool) (rotator : Rotator) (step : List ScanSky.Target) (pred : Prediction) : State where
  sky := ⟨⟨rotator, haveAntennaRotator, none, []⟩, ⟨step, false, 0, 0, []⟩, 0, 0, ⟨rotator, haveAntennaRotator, none, []⟩⟩
  satelliteTracking := false
  inPass := false
  tracking := false
  antennaIsUnderControl := false
  flip := ⟨false, 0, 0, 0, 0⟩
  flipDecisionMade := false
  flipHalf := 0
  pursuit := none
  prediction := pred
  entry := none
  orders := []

def run (s₀ : State) (turns : List Turn) : State := turns.foldl (turn boomEl cfg) s₀

end Tick

end SimpleSatOps.PassTracking
