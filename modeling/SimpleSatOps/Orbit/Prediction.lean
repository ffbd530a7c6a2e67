import Mathlib.Data.Rat.Floor
import SimpleSatOps.Lib.CText
import SimpleSatOps.Lib.While

/-!
# The pass search (`prediction.c`)

* `Ephem`, `Prediction`, `Criteria`, `Pass` : what is known of the satellite, and of its passes;
* `minutesUntilVisible`, `Walk`, `updatePassPredictions`, `getNextPass` : the next pass;
* `searchLoop`, `findPassesOem`, `Entry`, `findPassesTle` : the passes of a window;
* `elevation`, `Rise` : the first time of a grid at which a satellite is not below the horizon;
* `PassAt` : the minutes to the next pass, as the search settles on them;
* `minutesUntilVisible_spec`, `walk_ends` : what the walks come to;
* `getNextPass_spec`, `getNextPass_ends` : what a search gives, and when it ends.

Numbers are exact, and memory for the passes is never refused. The propagator is any function of the time, the clock
stands still, and every loop takes fuel.
-/

namespace SimpleSatOps.PassSearch
open While

/-! ## The source -/

/-- What `update_satellite_position` makes of a time. -/
structure Ephem where
  elevation : ℚ
  altitudeKm : ℚ
  azimuth : ℚ

/-- The `predicted_` fields of `prediction_t` -/
structure Prediction where
  minutesUntilVisible : ℚ
  maxElevation : ℚ
  maxAltitude : ℚ
  passDurationMinutes : ℚ
  minutesAbove0Degrees : ℚ
  minutesAbove30Degrees : ℚ
  ascensionAzimuth : ℚ
  ascensionJulUtc : ℚ
  descentAzimuth : ℚ
  descentJulUtc : ℚ

/-- `criteria_t`; the regular expression as what it matches. -/
structure Criteria where
  minAltitudeKm : ℚ
  maxAltitudeKm : ℚ
  maxMinutes : ℚ
  minElevation : ℚ
  maxElevation : ℚ
  regex : Option (List UInt8 → Bool)
  withConstellations : Bool
  namePrefix : Option (List UInt8)

/-- `pass_t` -/
structure Pass where
  name : List UInt8
  minutesAway : ℚ
  passDuration : ℚ
  ascensionJulUtc : ℚ
  ascensionAzimuth : ℚ
  maxElevation : ℚ
  maxAltitude : ℚ

/-- The locals of `update_pass_predictions`; `ascension` is the time and azimuth stored once `ascended` is set. -/
structure Walk where
  currentElevation : ℚ
  maxElevation : ℚ
  maxAltitude : ℚ
  passDuration : ℚ
  minutesAbove0Degrees : ℚ
  minutesAbove30Degrees : ℚ
  ascension : Option (ℚ × ℚ)
  lastVisible : ℚ × ℚ

section
variable (sat : ℚ → Ephem) (now : ℚ)

/-- `minutes_until_visible`: what it stores in the prediction. -/
def minutesUntilVisible (fuel : ℕ) (julUtcStart julUtcStop deltaTMinutes : ℚ) : Option ℚ :=
  let julUtcStart := if julUtcStart = 0 then now else julUtcStart
  let walked :=
    if (sat julUtcStart).elevation < 0 then
      loop (fun t => (sat t).elevation < 0 ∧ t < julUtcStop) (fun t => t + deltaTMinutes / 1440) fuel julUtcStart
    else
      loop (fun t => (sat t).elevation > 0 ∧ t < julUtcStop) (fun t => t - deltaTMinutes / 1440) fuel julUtcStart
  walked.map fun t => if t > 0 ∧ t < julUtcStop then (t - julUtcStart) * 1440 else -9999

/-- The body of the loop of `update_pass_predictions` -/
def walkStep (julUtc deltaTMinutes : ℚ) (w : Walk) : Walk :=
  let julNow := julUtc + w.passDuration / 1440
  let e := sat julNow
  let above := e.elevation > 0
  { currentElevation := e.elevation
    maxElevation := if w.maxElevation < e.elevation then e.elevation else w.maxElevation
    maxAltitude := if above ∧ w.maxAltitude < e.altitudeKm then e.altitudeKm else w.maxAltitude
    passDuration := w.passDuration + deltaTMinutes
    minutesAbove0Degrees := if above then w.minutesAbove0Degrees + deltaTMinutes else w.minutesAbove0Degrees
    minutesAbove30Degrees :=
      if above ∧ e.elevation > 30 then w.minutesAbove30Degrees + deltaTMinutes else w.minutesAbove30Degrees
    ascension := if above ∧ w.ascension = none then some (julNow, e.azimuth) else w.ascension
    lastVisible := if above then (julNow, e.azimuth) else w.lastVisible }

/-- The loop of `update_pass_predictions` -/
def walk (fuel : ℕ) (julUtcStart deltaTMinutes : ℚ) : Option Walk :=
  loop (fun w => w.currentElevation > -5) (walkStep sat julUtcStart deltaTMinutes) fuel
    ⟨(sat julUtcStart).elevation, (sat julUtcStart).elevation, (sat julUtcStart).altitudeKm, 0, 0, 0, none, (0, 0)⟩

/-- What a walk leaves in the prediction. -/
def Prediction.record (p : Prediction) (w : Walk) : Prediction :=
  { p with
    maxElevation := w.maxElevation
    maxAltitude := w.maxAltitude
    passDurationMinutes := w.passDuration
    minutesAbove0Degrees := w.minutesAbove0Degrees
    minutesAbove30Degrees := w.minutesAbove30Degrees
    ascensionJulUtc := (w.ascension.map Prod.fst).getD p.ascensionJulUtc
    ascensionAzimuth := (w.ascension.map Prod.snd).getD p.ascensionAzimuth
    descentJulUtc := if w.ascension = none then 0 else w.lastVisible.1
    descentAzimuth := if w.ascension = none then 0 else w.lastVisible.2 }

/-- `update_pass_predictions` -/
def updatePassPredictions (fuel : ℕ) (p : Prediction) (julUtcStart deltaTMinutes : ℚ) : Option Prediction :=
  (walk sat fuel julUtcStart deltaTMinutes).map p.record

/-- The second look at a near pass, at every second. -/
def refineMinutes (fuel : ℕ) (minutes julUtcStart julUtcStop deltaTMinutes : ℚ) : Option ℚ :=
  if minutes < 10 ∧ deltaTMinutes > 1 / 60 then minutesUntilVisible sat now fuel julUtcStart julUtcStop (1 / 60)
  else some minutes

/-- `get_next_pass`: the prediction, and whether there is a pass. -/
def getNextPass (fuel : ℕ) (p : Prediction) (julUtcStart julUtcStop deltaTMinutes : ℚ) :
    Option (Prediction × Bool) := do
  let minutes ← minutesUntilVisible sat now fuel julUtcStart julUtcStop deltaTMinutes
  if minutes ≥ 0 then
    let minutes ← refineMinutes sat now fuel minutes julUtcStart julUtcStop deltaTMinutes
    let p := { p with minutesUntilVisible := minutes }
    let p ← updatePassPredictions sat fuel p (julUtcStart + minutes / 1440) (1 / 4)
    return (p, true)
  else return ({ p with minutesUntilVisible := minutes }, false)

/-- Whether the search passes over what it found. -/
def Criteria.rejects (c : Criteria) (p : Prediction) : Bool :=
  p.minutesAbove0Degrees ≤ 0 ∨ p.maxElevation > c.maxElevation ∨ p.maxElevation < c.minElevation

/-- `append_pass` -/
def appendPass (passes : List Pass) (name : List UInt8) (minutesUntilVisible : ℚ) (p : Prediction) : List Pass :=
  passes ++ [⟨name.take 25, minutesUntilVisible, p.passDurationMinutes, p.ascensionJulUtc, p.ascensionAzimuth,
    p.maxElevation, p.maxAltitude⟩]

/-- The search for the passes of a satellite, from an offset on. -/
def searchLoop (name : List UInt8) (julUtcStart julUtcStop deltaTMinutes : ℚ) (c : Criteria) (findAll : Bool) :
    (fuel : ℕ) → (utcOffsetMinutes : ℚ) → Prediction → List Pass → Option (Prediction × List Pass)
  | 0, _, _, _ => none
  | fuel + 1, offset, p, passes => do
    let (p, got) ← getNextPass sat now fuel p (julUtcStart + offset / 1440) julUtcStop deltaTMinutes
    if got then
      let minutes := p.minutesUntilVisible + offset
      let offset := offset + (p.minutesUntilVisible + 60)
      if c.rejects p then searchLoop name julUtcStart julUtcStop deltaTMinutes c findAll fuel offset p passes
      else
        let passes := appendPass passes name minutes p
        if findAll then searchLoop name julUtcStart julUtcStop deltaTMinutes c findAll fuel offset p passes
        else some (p, passes)
    else some (p, passes)

end

/-- `qsort` by one of the two comparisons. -/
def sortPasses (reverseOrder : Bool) (passes : List Pass) : List Pass :=
  passes.mergeSort fun a b => if reverseOrder then a.minutesAway ≥ b.minutesAway else a.minutesAway ≤ b.minutesAway

def Criteria.altitudeOk (c : Criteria) (e : Ephem) : Bool :=
  e.altitudeKm ≥ c.minAltitudeKm ∧ e.altitudeKm ≤ c.maxAltitudeKm

/-- `find_passes` on a trajectory: the passes and the number checked. -/
def findPassesOem (sat : ℚ → Ephem) (now : ℚ) (fuel : ℕ) (objectName : List UInt8) (p : Prediction)
    (julUtcStart deltaTMinutes : ℚ) (c : Criteria) (reverseOrder findAll : Bool) : Option (List Pass × ℕ) :=
  let name := if objectName = [] then text "UNKNOWN" else objectName
  let julUtcStop := julUtcStart + c.maxMinutes / 1440
  if c.altitudeOk (sat julUtcStart) then do
    let (_, passes) ← searchLoop sat now name julUtcStart julUtcStop deltaTMinutes c findAll fuel 0 p []
    return (sortPasses reverseOrder passes, 1)
  else some ([], 0)

/-- A name and the two lines behind it in the file of elements. -/
structure Entry where
  name : List UInt8
  goodElements : Bool
  julEpoch : ℚ
  sat : ℚ → Ephem

def constellations : List (List UInt8) :=
  [text "COSMOS", text "CENTISPACE", text "FLOCK 4", text "GAOFEN-", text "GEESAT-", text "GLOBALSTAR", text "GONETS-",
    text "HAWK-", text "ICEYE-", text "IRIDIUM", text "JILIN-", text "LEMUR-", text "NUSAT-", text "ONEWEB-",
    text "QIANFAN-", text "SITRO-AIS", text "STARLINK", text "YAOGAN"]

/-- Whether a satellite is searched for, by its name. -/
def Criteria.selects (c : Criteria) (name : List UInt8) : Bool :=
  match c.namePrefix with
  | some namePrefix => namePrefix.isPrefixOf name
  | none => (c.withConstellations || !constellations.any (·.isPrefixOf name)) && c.regex.all fun regex => regex name

/-- Where the search for a satellite starts: not before its epoch. -/
def startOffset (julUtcStart julEpoch : ℚ) : ℚ :=
  if julEpoch > julUtcStart then (julEpoch - julUtcStart) * 1440 else 0

/-- The loop of `find_passes` over the entries: the passes, the entries and the number checked, none of them after a
bad entry. -/
def searchEntries (now : ℚ) (fuel : ℕ) (julUtcStart deltaTMinutes : ℚ) (c : Criteria) (findAll : Bool) :
    List Entry → Prediction → List Pass → ℕ → ℕ → Option (Option (List Pass × ℕ × ℕ))
  | [], _, passes, count, checked => some (some (passes, count, checked))
  | e :: entries, p, passes, count, checked =>
    if e.goodElements = false then some none
    else if c.selects e.name ∧ c.altitudeOk (e.sat julUtcStart) then do
      let (p, passes) ← searchLoop e.sat now e.name julUtcStart (julUtcStart + c.maxMinutes / 1440) deltaTMinutes c
        findAll fuel (startOffset julUtcStart e.julEpoch) p passes
      searchEntries now fuel julUtcStart deltaTMinutes c findAll entries p passes (count + 1) (checked + 1)
    else searchEntries now fuel julUtcStart deltaTMinutes c findAll entries p passes (count + 1) checked

/-- `find_passes` on a file of elements. -/
def findPassesTle (now : ℚ) (fuel : ℕ) (entries : List Entry) (p : Prediction) (julUtcStart deltaTMinutes : ℚ)
    (c : Criteria) (reverseOrder findAll : Bool) : Option (Option (List Pass × ℕ × ℕ)) :=
  (searchEntries now fuel julUtcStart deltaTMinutes c findAll entries p [] 0 0).map fun result =>
    result.map fun (passes, counts) => (sortPasses reverseOrder passes, counts)

/-! ## One search -/

section
variable {sat : ℚ → Ephem} {now stop δ d o s m j t : ℚ} {fuel : ℕ}

/-- The first time of the grid from `o` at which the satellite is not below the horizon. -/
def Rise (sat : ℚ → Ephem) (δ o t : ℚ) : Prop :=
  ∃ k : ℕ, t = o + k * (δ / 1440) ∧ 0 ≤ (sat t).elevation ∧ ∀ i < k, (sat (o + i * (δ / 1440))).elevation < 0

/-- What a search from `o` finds ahead. -/
structure Ahead (sat : ℚ → Ephem) (stop δ o t : ℚ) : Prop where
  start : (sat o).elevation ≤ 0
  rise : Rise sat δ o t
  pos : 0 < t
  lt : t < stop

/-- A satellite that is up was not at some earlier time of the grid. -/
def Back (sat : ℚ → Ephem) (stop δ o : ℚ) : Prop :=
  0 < (sat o).elevation → o < stop → ∃ k : ℕ, (sat (o - k * (δ / 1440))).elevation ≤ 0

/-- The satellite is well below the horizon some quarters of a minute after `j`. -/
def Sets (sat : ℚ → Ephem) (j : ℚ) : Prop := ∃ k : ℕ, (sat (j + k * (1 / 4) / 1440)).elevation ≤ -5

/-- Where a search starts that is asked for one from `s`. -/
def origin (now s : ℚ) : ℚ := if s = 0 then now else s

theorem iterate_add (k : ℕ) : (fun t : ℚ => t + d)^[k] o = o + k * d := by
  induction k with
  | zero => rw [Function.iterate_zero_apply, Nat.cast_zero, zero_mul, add_zero]
  | succ k ih =>
      rw [Function.iterate_succ_apply', ih, Nat.cast_succ]
      ring

theorem iterate_sub (k : ℕ) : (fun t : ℚ => t - d)^[k] o = o - k * d := by
  induction k with
  | zero => rw [Function.iterate_zero_apply, Nat.cast_zero, zero_mul, sub_zero]
  | succ k ih =>
      rw [Function.iterate_succ_apply', ih, Nat.cast_succ]
      ring

theorem Rise.le (hδ : 0 < δ) (h : Rise sat δ o t) : o ≤ t := by
  obtain ⟨k, rfl, -, -⟩ := h
  have hpos : 0 ≤ (k : ℚ) * (δ / 1440) := mul_nonneg (Nat.cast_nonneg k) (by linarith)
  linarith

theorem Rise.unique {t' : ℚ} (h : Rise sat δ o t) (h' : Rise sat δ o t') : t = t' := by
  obtain ⟨k, rfl, hk, hbefore⟩ := h
  obtain ⟨k', rfl, hk', hbefore'⟩ := h'
  rcases lt_trichotomy k k' with hlt | rfl | hlt
  · exact absurd (hbefore' k hlt) (not_lt.mpr hk)
  · rfl
  · exact absurd (hbefore k' hlt) (not_lt.mpr hk')

/-- A search that starts where the satellite is not below the horizon has its rise there. -/
theorem Rise.eq_start (h : Rise sat δ o t) (hstart : 0 ≤ (sat o).elevation) : t = o := by
  refine h.unique ⟨0, ?_, hstart, fun i hi => absurd hi (Nat.not_lt_zero i)⟩
  rw [Nat.cast_zero, zero_mul, add_zero]

/-- The walk forward ends at the end of the window. -/
theorem forward_exits (sat : ℚ → Ephem) (stop o : ℚ) (hδ : 0 < δ) :
    ∃ k, Exits (fun t : ℚ => decide ((sat t).elevation < 0 ∧ t < stop)) (fun t => t + δ / 1440) o k := by
  obtain ⟨k, hk⟩ := exists_nat_ge ((stop - o) / (δ / 1440))
  have hle : stop - o ≤ k * (δ / 1440) := (div_le_iff₀ (by linarith)).mp hk
  refine exits_iff.mpr ⟨k, ?_⟩
  rw [iterate_add, decide_eq_false_iff_not]
  rintro ⟨-, hlt⟩
  linarith

/-- The walk back ends when the satellite was not up at some time, or the window is over. -/
theorem back_exits (hδ : 0 < δ) : (∃ k, Exits (fun t : ℚ => decide ((sat t).elevation > 0 ∧ t < stop))
    (fun t => t - δ / 1440) o k) ↔ Back sat stop δ o := by
  rw [exits_iff]
  simp only [iterate_sub, decide_eq_false_iff_not]
  constructor
  · rintro ⟨k, hk⟩ - hlt
    have hpos : 0 ≤ (k : ℚ) * (δ / 1440) := mul_nonneg (Nat.cast_nonneg k) (by linarith)
    exact ⟨k, not_lt.mp fun hup => hk ⟨hup, by linarith⟩⟩
  · intro hback
    by_cases hup : 0 < (sat o).elevation ∧ o < stop
    · obtain ⟨k, hk⟩ := hback hup.1 hup.2
      exact ⟨k, fun h => absurd h.1 (not_lt.mpr hk)⟩
    · refine ⟨0, ?_⟩
      rwa [Nat.cast_zero, zero_mul, sub_zero]

/-- The minutes from `o` to where the walk ended. -/
def minutesAt (stop o t : ℚ) : ℚ := if t > 0 ∧ t < stop then (t - o) * 1440 else -9999

theorem minutesUntilVisible_down (h : (sat (origin now s)).elevation < 0) :
    minutesUntilVisible sat now fuel s stop δ = (loop (fun t => (sat t).elevation < 0 ∧ t < stop)
      (fun t => t + δ / 1440) fuel (origin now s)).map (minutesAt stop (origin now s)) :=
  congrArg (Option.map (minutesAt stop (origin now s))) (if_pos h)

theorem minutesUntilVisible_up (h : ¬(sat (origin now s)).elevation < 0) :
    minutesUntilVisible sat now fuel s stop δ = (loop (fun t => (sat t).elevation > 0 ∧ t < stop)
      (fun t => t - δ / 1440) fuel (origin now s)).map (minutesAt stop (origin now s)) :=
  congrArg (Option.map (minutesAt stop (origin now s))) (if_neg h)

/-- The walk ends, and where. -/
theorem minutesUntilVisible_ends (hδ : 0 < δ) :
    (∃ fuel m, minutesUntilVisible sat now fuel s stop δ = some m) ↔ Back sat stop δ (origin now s) := by
  by_cases hdown : (sat (origin now s)).elevation < 0
  · simp only [minutesUntilVisible_down hdown]
    constructor
    · rintro - hup
      exact absurd hup (not_lt.mpr hdown.le)
    · rintro -
      obtain ⟨k, hk⟩ := forward_exits sat stop (origin now s) hδ
      exact ⟨k + 1, _, congrArg (Option.map _) (loop_of_exits hk (Nat.lt_succ_self k))⟩
  · simp only [minutesUntilVisible_up hdown]
    rw [← back_exits hδ]
    constructor
    · rintro ⟨fuel, m, h⟩
      obtain ⟨t, ht, -⟩ := Option.map_eq_some_iff.mp h
      obtain ⟨k, hk, -⟩ := exits_of_loop ht
      exact ⟨k, hk⟩
    · rintro ⟨k, hk⟩
      exact ⟨k + 1, _, congrArg (Option.map _) (loop_of_exits hk (Nat.lt_succ_self k))⟩

/-- What is stored: the minutes to the rise ahead, or a negative number where there is none. -/
def Stored (sat : ℚ → Ephem) (stop δ o m : ℚ) : Prop :=
  (∃ t, Ahead sat stop δ o t ∧ m = (t - o) * 1440) ∨
    (¬∃ t, Ahead sat stop δ o t) ∧ m < 0 ∧ ((sat o).elevation ≤ 0 → m = -9999)

theorem stored_forward (hδ : 0 < δ) {k : ℕ} (hdown : (sat o).elevation < 0)
    (h : Exits (fun t : ℚ => decide ((sat t).elevation < 0 ∧ t < stop)) (fun t => t + δ / 1440) o k) :
    Stored sat stop δ o (minutesAt stop o (o + k * (δ / 1440))) := by
  obtain ⟨hall, hlast⟩ := h
  simp only [iterate_add, decide_eq_true_eq, decide_eq_false_iff_not] at hall hlast
  by_cases hin : o + k * (δ / 1440) > 0 ∧ o + k * (δ / 1440) < stop
  · have hup := not_lt.mp fun hneg => hlast ⟨hneg, hin.2⟩
    exact .inl ⟨_, ⟨hdown.le, ⟨k, rfl, hup, fun i hi => (hall i hi).1⟩, hin.1, hin.2⟩, if_pos hin⟩
  · rw [minutesAt, if_neg hin]
    refine .inr ⟨?_, by norm_num, fun _ => rfl⟩
    rintro ⟨t, -, ⟨k', rfl, hup, hbefore⟩, hpos, hlt⟩
    rcases lt_trichotomy k k' with hk | rfl | hk
    · -- the walk stopped at the end of the window, in front of the rise
      have hmul : (k : ℚ) * (δ / 1440) ≤ k' * (δ / 1440) :=
        mul_le_mul_of_nonneg_right (Nat.cast_le.mpr hk.le) (by linarith)
      exact hlast ⟨hbefore k hk, by linarith⟩
    · exact hin ⟨hpos, hlt⟩
    · exact absurd (hall k' hk).1 (not_lt.mpr hup)

theorem stored_back (hδ : 0 < δ) {k : ℕ} (hup : ¬(sat o).elevation < 0)
    (h : Exits (fun t : ℚ => decide ((sat t).elevation > 0 ∧ t < stop)) (fun t => t - δ / 1440) o k) :
    Stored sat stop δ o (minutesAt stop o (o - k * (δ / 1440))) := by
  obtain ⟨hall, hlast⟩ := h
  simp only [iterate_sub, decide_eq_true_eq, decide_eq_false_iff_not] at hall hlast
  cases k with
  | zero =>
      rw [Nat.cast_zero, zero_mul, sub_zero] at hlast ⊢
      by_cases hin : o > 0 ∧ o < stop
      · have hle : (sat o).elevation ≤ 0 := not_lt.mp fun hpos => hlast ⟨hpos, hin.2⟩
        refine .inl ⟨o, ⟨hle, ⟨0, ?_, not_lt.mp hup, fun i hi => absurd hi (Nat.not_lt_zero i)⟩, hin.1, hin.2⟩,
          if_pos hin⟩
        rw [Nat.cast_zero, zero_mul, add_zero]
      · rw [minutesAt, if_neg hin]
        refine .inr ⟨?_, by norm_num, fun _ => rfl⟩
        rintro ⟨t, hahead⟩
        obtain rfl := hahead.rise.eq_start (not_lt.mp hup)
        exact hin ⟨hahead.pos, hahead.lt⟩
  | succ k =>
      have hpos : 0 < (sat o).elevation := by
        have hfirst := (hall 0 (Nat.succ_pos k)).1
        rwa [Nat.cast_zero, zero_mul, sub_zero] at hfirst
      refine .inr ⟨fun ⟨t, hahead⟩ => absurd hpos (not_lt.mpr hahead.start), ?_,
        fun hle => absurd hpos (not_lt.mpr hle)⟩
      rw [minutesAt]
      split
      · have hmul : 0 < ((k + 1 : ℕ) : ℚ) * (δ / 1440) := mul_pos (Nat.cast_pos.mpr k.succ_pos) (by linarith)
        linarith
      · norm_num

theorem minutesUntilVisible_spec (hδ : 0 < δ) (h : minutesUntilVisible sat now fuel s stop δ = some m) :
    Stored sat stop δ (origin now s) m := by
  by_cases hdown : (sat (origin now s)).elevation < 0
  · rw [minutesUntilVisible_down hdown] at h
    obtain ⟨t, ht, rfl⟩ := Option.map_eq_some_iff.mp h
    obtain ⟨k, hk, rfl⟩ := exits_of_loop ht
    rw [iterate_add]
    exact stored_forward hδ hdown hk
  · rw [minutesUntilVisible_up hdown] at h
    obtain ⟨t, ht, rfl⟩ := Option.map_eq_some_iff.mp h
    obtain ⟨k, hk, rfl⟩ := exits_of_loop ht
    rw [iterate_sub]
    exact stored_back hδ hdown hk

/-! ## The walk over a pass -/

/-- The walk, as it starts. -/
def walkStart (sat : ℚ → Ephem) (j : ℚ) : Walk :=
  ⟨(sat j).elevation, (sat j).elevation, (sat j).altitudeKm, 0, 0, 0, none, (0, 0)⟩

theorem passDuration_iterate (k : ℕ) : ((walkStep sat j d)^[k] (walkStart sat j)).passDuration = k * d := by
  induction k with
  | zero => rw [Nat.cast_zero, zero_mul]; rfl
  | succ k ih =>
      rw [Function.iterate_succ_apply', Nat.cast_succ, add_mul, one_mul, ← ih]
      rfl

theorem currentElevation_iterate (k : ℕ) :
    ((walkStep sat j d)^[k + 1] (walkStart sat j)).currentElevation = (sat (j + k * d / 1440)).elevation := by
  rw [Function.iterate_succ_apply', ← passDuration_iterate]
  rfl

/-- The walk over a pass ends when the satellite sets. -/
theorem walk_ends : (∃ fuel w, walk sat fuel j (1 / 4) = some w) ↔ Sets sat j := by
  have hexits : (∃ fuel w, walk sat fuel j (1 / 4) = some w) ↔
      ∃ k, Exits (fun w : Walk => decide (w.currentElevation > -5)) (walkStep sat j (1 / 4)) (walkStart sat j) k := by
    constructor
    · rintro ⟨fuel, w, hw⟩
      obtain ⟨k, hk, -⟩ := exits_of_loop hw
      exact ⟨k, hk⟩
    · rintro ⟨k, hk⟩
      exact ⟨k + 1, _, loop_of_exits hk (Nat.lt_succ_self k)⟩
  rw [hexits, exits_iff]
  simp only [decide_eq_false_iff_not, gt_iff_lt, not_lt]
  constructor
  · rintro ⟨k, hk⟩
    cases k with
    | zero =>
        refine ⟨0, ?_⟩
        rw [Nat.cast_zero, zero_mul, zero_div, add_zero]
        exact hk
    | succ k =>
        rw [currentElevation_iterate] at hk
        exact ⟨k, hk⟩
  · rintro ⟨k, hk⟩
    refine ⟨k + 1, ?_⟩
    rwa [currentElevation_iterate]

/-! ## The next pass -/

/-- The minutes to the next pass, after the second look at a near one. -/
def PassAt (sat : ℚ → Ephem) (now stop δ s m : ℚ) : Prop :=
  ∃ t, Ahead sat stop δ (origin now s) t ∧
    if (t - origin now s) * 1440 < 10 ∧ δ > 1 / 60 then Stored sat stop (1 / 60) (origin now s) m
    else m = (t - origin now s) * 1440

theorem Ahead.unique {t' : ℚ} (h : Ahead sat stop δ o t) (h' : Ahead sat stop δ o t') : t = t' := h.rise.unique h'.rise

theorem Stored.unique {m' : ℚ} (hle : (sat o).elevation ≤ 0) (h : Stored sat stop δ o m) (h' : Stored sat stop δ o m') :
    m = m' := by
  rcases h with ⟨t, ht, rfl⟩ | ⟨hnone, -, hm⟩
  · rcases h' with ⟨t', ht', rfl⟩ | ⟨hnone', -, -⟩
    · rw [ht.unique ht']
    · exact absurd ⟨t, ht⟩ hnone'
  · rcases h' with ⟨t', ht', -⟩ | ⟨-, -, hm'⟩
    · exact absurd ⟨t', ht'⟩ hnone
    · rw [hm hle, hm' hle]

theorem PassAt.unique {m' : ℚ} (h : PassAt sat now stop δ s m) (h' : PassAt sat now stop δ s m') : m = m' := by
  obtain ⟨t, ht, hm⟩ := h
  obtain ⟨t', ht', hm'⟩ := h'
  obtain rfl := ht.unique ht'
  by_cases hnear : (t - origin now s) * 1440 < 10 ∧ δ > 1 / 60
  · rw [if_pos hnear] at hm hm'
    exact hm.unique ht.start hm'
  · rw [if_neg hnear] at hm hm'
    rw [hm, hm']

theorem minutesUntilVisible_mono {fuel' : ℕ} (hle : fuel ≤ fuel')
    (h : minutesUntilVisible sat now fuel s stop δ = some m) : minutesUntilVisible sat now fuel' s stop δ = some m := by
  by_cases hdown : (sat (origin now s)).elevation < 0
  · rw [minutesUntilVisible_down hdown] at h ⊢
    obtain ⟨t, ht, rfl⟩ := Option.map_eq_some_iff.mp h
    rw [loop_mono hle ht]
    rfl
  · rw [minutesUntilVisible_up hdown] at h ⊢
    obtain ⟨t, ht, rfl⟩ := Option.map_eq_some_iff.mp h
    rw [loop_mono hle ht]
    rfl

/-- What a search gives, when it ends. -/
inductive Searched (sat : ℚ → Ephem) (now stop δ s : ℚ) (p : Prediction) : Prediction × Bool → Prop
  | none {p' : Prediction} : (¬∃ m, PassAt sat now stop δ s m) → Searched sat now stop δ s p (p', false)
  | pass {fuel : ℕ} {m : ℚ} {w : Walk} : PassAt sat now stop δ s m → walk sat fuel (s + m / 1440) (1 / 4) = some w →
      Searched sat now stop δ s p (({ p with minutesUntilVisible := m } : Prediction).record w, true)

theorem refineMinutes_spec (ht : Ahead sat stop δ (origin now s) t)
    (h : refineMinutes sat now fuel ((t - origin now s) * 1440) s stop δ = some m) : PassAt sat now stop δ s m := by
  refine ⟨t, ht, ?_⟩
  by_cases hnear : (t - origin now s) * 1440 < 10 ∧ δ > 1 / 60
  · rw [refineMinutes, if_pos hnear] at h
    rw [if_pos hnear]
    exact minutesUntilVisible_spec (by norm_num) h
  · rw [refineMinutes, if_neg hnear] at h
    rw [if_neg hnear]
    exact (Option.some.inj h).symm

/-- The second look ends, as the satellite is not up where it starts. -/
theorem refineMinutes_ends (ht : Ahead sat stop δ (origin now s) t) :
    ∃ fuel m, refineMinutes sat now fuel ((t - origin now s) * 1440) s stop δ = some m := by
  by_cases hnear : (t - origin now s) * 1440 < 10 ∧ δ > 1 / 60
  · simp only [refineMinutes, if_pos hnear]
    exact (minutesUntilVisible_ends (by norm_num)).mpr fun hup => absurd hup (not_lt.mpr ht.start)
  · simp only [refineMinutes, if_neg hnear]
    exact ⟨0, _, rfl⟩

theorem refineMinutes_mono {fuel' : ℕ} (hle : fuel ≤ fuel') {m' : ℚ}
    (h : refineMinutes sat now fuel m s stop δ = some m') : refineMinutes sat now fuel' m s stop δ = some m' := by
  unfold refineMinutes at h ⊢
  split
  · next hnear =>
      rw [if_pos hnear] at h
      exact minutesUntilVisible_mono hle h
  · next hfar =>
      rw [if_neg hfar] at h
      exact h

theorem getNextPass_of_neg {p : Prediction} (hm : minutesUntilVisible sat now fuel s stop δ = some m)
    (hneg : ¬m ≥ 0) :
    getNextPass sat now fuel p s stop δ = some ({ p with minutesUntilVisible := m }, false) := by
  unfold getNextPass
  rw [hm, Option.bind_eq_bind, Option.bind_some, if_neg hneg]
  rfl

theorem getNextPass_of_nonneg {p : Prediction} {m' : ℚ} {w : Walk}
    (hm : minutesUntilVisible sat now fuel s stop δ = some m) (hpos : m ≥ 0)
    (hm' : refineMinutes sat now fuel m s stop δ = some m') (hw : walk sat fuel (s + m' / 1440) (1 / 4) = some w) :
    getNextPass sat now fuel p s stop δ =
      some (({ p with minutesUntilVisible := m' } : Prediction).record w, true) := by
  unfold getNextPass updatePassPredictions
  rw [hm, Option.bind_eq_bind, Option.bind_some, if_pos hpos, hm', Option.bind_some, hw]
  rfl

theorem getNextPass_spec (hδ : 0 < δ) {p : Prediction} {r : Prediction × Bool}
    (h : getNextPass sat now fuel p s stop δ = some r) :
    Back sat stop δ (origin now s) ∧ Searched sat now stop δ s p r := by
  obtain ⟨m, hm, h⟩ := Option.bind_eq_some_iff.mp h
  refine ⟨(minutesUntilVisible_ends hδ).mp ⟨fuel, m, hm⟩, ?_⟩
  have hstored := minutesUntilVisible_spec hδ hm
  by_cases hpos : m ≥ 0
  · rw [if_pos hpos] at h
    obtain ⟨m', hm', h⟩ := Option.bind_eq_some_iff.mp h
    obtain ⟨p', hp', h⟩ := Option.bind_eq_some_iff.mp h
    obtain ⟨w, hw, rfl⟩ := Option.map_eq_some_iff.mp hp'
    obtain rfl := Option.some.inj h
    rcases hstored with ⟨t, ht, rfl⟩ | ⟨-, hneg, -⟩
    · exact .pass (refineMinutes_spec ht hm') hw
    · exact absurd hneg (not_lt.mpr hpos)
  · rw [if_neg hpos] at h
    obtain rfl := Option.some.inj h
    refine .none ?_
    rintro ⟨m', t, ht, -⟩
    rcases hstored with ⟨t', ht', rfl⟩ | ⟨hnone, -, -⟩
    · have hle := ht'.rise.le hδ
      exact hpos (by linarith)
    · exact hnone ⟨t, ht⟩

/-- A search ends when its walks do. -/
theorem getNextPass_ends (hδ : 0 < δ) (p : Prediction) :
    (∃ fuel r, getNextPass sat now fuel p s stop δ = some r) ↔
      Back sat stop δ (origin now s) ∧ ∀ m, PassAt sat now stop δ s m → Sets sat (s + m / 1440) := by
  constructor
  · rintro ⟨fuel, r, h⟩
    obtain ⟨hback, hr⟩ := getNextPass_spec hδ h
    refine ⟨hback, fun m hm => ?_⟩
    cases hr with
    | none hnone => exact absurd ⟨m, hm⟩ hnone
    | pass hm' hw =>
        rw [hm.unique hm']
        exact walk_ends.mp ⟨_, _, hw⟩
  · rintro ⟨hback, hsets⟩
    obtain ⟨fuel₁, m, hm⟩ := (minutesUntilVisible_ends hδ).mpr hback
    by_cases hpos : m ≥ 0
    · obtain ⟨t, ht, rfl⟩ : ∃ t, Ahead sat stop δ (origin now s) t ∧ m = (t - origin now s) * 1440 := by
        rcases minutesUntilVisible_spec hδ hm with hahead | ⟨-, hneg, -⟩
        · exact hahead
        · exact absurd hneg (not_lt.mpr hpos)
      obtain ⟨fuel₂, m', hm'⟩ := refineMinutes_ends ht
      obtain ⟨fuel₃, w, hw⟩ := walk_ends.mpr (hsets m' (refineMinutes_spec ht hm'))
      have hle₂ : fuel₂ ≤ max fuel₁ (max fuel₂ fuel₃) := (le_max_left _ _).trans (le_max_right _ _)
      have hle₃ : fuel₃ ≤ max fuel₁ (max fuel₂ fuel₃) := (le_max_right _ _).trans (le_max_right _ _)
      exact ⟨_, _, getNextPass_of_nonneg (minutesUntilVisible_mono (le_max_left _ _) hm) hpos
        (refineMinutes_mono hle₂ hm') (loop_mono hle₃ hw)⟩
    · exact ⟨fuel₁, _, getNextPass_of_neg hm hpos⟩

end

end SimpleSatOps.PassSearch
