import Mathlib.Algebra.Order.Floor.Semiring
import Mathlib.Data.Rat.Floor
import SimpleSatOps.Lib.Chain

/-!
# The pursuit planner (`pursuit.c`)

* `Config`, `Sampler` : `pursuit_config_t`, and the satellite with its context;
* `interpWaypoint`, `evaluateCost` : the squared errors of a plan;
* `projectAxis`, `projectWaypoint` : one waypoint;
* `sweep`, `planRound`, `iterate`, `pursuitPlanBuild` : the plan;
* `projectAxis_spec` : what is put at a waypoint fits between its neighbours;
* `Steered` : the invariant of the sweeps, with one lemma for each of them;
* `Drivable`, `plan_drivable` : a plan keeps to the bounds and the rates.

Numbers are exact, and memory for the waypoints is never refused. Of the errors their squares are kept; the plan
reports roots of them.
-/

namespace SimpleSatOps.Pursuit
open Chain

/-! ## The source -/

/-- `pursuit_config_t` -/
structure Config where
  julAos : ℚ
  julLos : ℚ
  waypointDtS : ℚ
  denseDtS : ℚ
  maxIter : ℤ
  costImprovementEps : ℚ
  rAzDps : ℚ
  rElDps : ℚ
  azMin : ℚ
  azMax : ℚ
  elMin : ℚ
  elMax : ℚ
  a0Unwrapped : ℚ
  e0 : ℚ

/-- `pursuit_waypoint_t` -/
structure Waypoint where
  julUtc : ℚ
  azUnwrapped : ℚ
  el : ℚ
deriving DecidableEq

/-- `pursuit_sat_sample_fn_t` on a context: the new context and the position, none where it fails. -/
abbrev Sampler (σ : Type*) := σ → ℚ → σ × Option (ℚ × ℚ)

/-- The segment of a plan a time is in, from the front. -/
def segment (W : ℕ → Waypoint) (n : ℕ) (t : ℚ) : (fuel : ℕ) → ℕ → ℕ
  | 0, k => k
  | fuel + 1, k => if k + 1 < n ∧ (W (k + 1)).julUtc ≤ t then segment W n t fuel (k + 1) else k

/-- `interp_waypoint` -/
def interpWaypoint (W : ℕ → Waypoint) (n : ℕ) (t : ℚ) : ℚ × ℚ :=
  if n = 0 then (0, 0)
  else if t ≤ (W 0).julUtc then ((W 0).azUnwrapped, (W 0).el)
  else if (W (n - 1)).julUtc ≤ t then ((W (n - 1)).azUnwrapped, (W (n - 1)).el)
  else
    let k := segment W n t n 0
    let frac := (t - (W k).julUtc) / ((W (k + 1)).julUtc - (W k).julUtc)
    ((W k).azUnwrapped + ((W (k + 1)).azUnwrapped - (W k).azUnwrapped) * frac,
      (W k).el + ((W (k + 1)).el - (W k).el) * frac)

variable {σ : Type*}

/-- The loop of `evaluate_cost` over `n` samples from `t` on. -/
def squaredErrors (sat : Sampler σ) (W : ℕ → Waypoint) (n : ℕ) (dt : ℚ) : ℕ → ℚ → σ → σ × List ℚ
  | 0, _, s => (s, [])
  | m + 1, t, s =>
    let (s, sample) := sat s t
    let (s', errs) := squaredErrors sat W n dt m (t + dt) s
    match sample with
    | none => (s', errs)
    | some (satAz, satEl) =>
      let (antAz, antEl) := interpWaypoint W n t
      let daz := antAz - satAz
      let del := antEl - satEl
      (s', (daz * daz + del * del) :: errs)

/-- `evaluate_cost` -/
def evaluateCost (cfg : Config) (sat : Sampler σ) (W : ℕ → Waypoint) (n : ℕ) (s : σ) : σ × List ℚ :=
  let dt := cfg.denseDtS / 86400
  let dt := if dt ≤ 0 then 1 / 86400 else dt
  squaredErrors sat W n dt (⌊(cfg.julLos - cfg.julAos) / dt⌋₊ + 1) cfg.julAos s

/-- The box of an axis in `project_waypoint`: the rotator gets from `before` by `reach`, and to the waypoint behind, if
there is one, by another reach. -/
def axisBox (axisMin axisMax before reach : ℚ) (after : Option (ℚ × ℚ)) : ℚ × ℚ :=
  let lo := before - reach
  let hi := before + reach
  let lo := match after with
    | none => lo
    | some (value, reach') => if lo < value - reach' then value - reach' else lo
  let hi := match after with
    | none => hi
    | some (value, reach') => if value + reach' < hi then value + reach' else hi
  (if lo < axisMin then axisMin else lo, if axisMax < hi then axisMax else hi)

/-- One axis in `project_waypoint`. Where the box is empty the value is as near to the waypoint behind as the rotator
gets from the one before. -/
def projectAxis (axisMin axisMax before reach : ℚ) (after : Option (ℚ × ℚ)) (desired : ℚ) : ℚ :=
  let (lo, hi) := axisBox axisMin axisMax before reach after
  let new :=
    if hi < lo then
      clamp (match after with | none => desired | some (value, _) => value) (before - reach) (before + reach)
    else clamp desired lo hi
  clamp new axisMin axisMax

/-- The seconds from one waypoint to another. -/
def seconds (v w : Waypoint) : ℚ :=
  let dt := (w.julUtc - v.julUtc) * 86400
  if dt < 0 then 0 else dt

/-- `project_waypoint` -/
def projectWaypoint (cfg : Config) (sat : Sampler σ) (n k : ℕ) (s : σ) (W : ℕ → Waypoint) :
    σ × (ℕ → Waypoint) × Bool :=
  if k = 0 ∨ n ≤ k then (s, W, false)
  else
    let dtBefore := seconds (W (k - 1)) (W k)
    let dtAfter := seconds (W k) (W (k + 1))
    let (s, sample) := sat s (W k).julUtc
    let (desiredAz, desiredEl) := sample.getD ((W k).azUnwrapped, (W k).el)
    let newAz := projectAxis cfg.azMin cfg.azMax (W (k - 1)).azUnwrapped (cfg.rAzDps * dtBefore)
      (if k + 1 < n then some ((W (k + 1)).azUnwrapped, cfg.rAzDps * dtAfter) else none) desiredAz
    let newEl := projectAxis cfg.elMin cfg.elMax (W (k - 1)).el (cfg.rElDps * dtBefore)
      (if k + 1 < n then some ((W (k + 1)).el, cfg.rElDps * dtAfter) else none) desiredEl
    let moved := decide (1 / 1000000 < |newAz - (W k).azUnwrapped| ∨ 1 / 1000000 < |newEl - (W k).el|)
    (s, Function.update W k { W k with azUnwrapped := newAz, el := newEl }, moved)

/-- The waypoints of a sweep, one after the other. -/
def sweep (cfg : Config) (sat : Sampler σ) (n : ℕ) (ks : List ℕ) (x : σ × (ℕ → Waypoint) × Bool) :
    σ × (ℕ → Waypoint) × Bool :=
  ks.foldl (fun (s, W, moved) k =>
    let (s, W, here) := projectWaypoint cfg sat n k s W
    (s, W, moved || here)) x

/-- A round of `pursuit_plan_build`: the sweeps forward and backward. -/
def planRound (cfg : Config) (sat : Sampler σ) (n : ℕ) (s : σ) (W : ℕ → Waypoint) : σ × (ℕ → Waypoint) × Bool :=
  let x := sweep cfg sat n (List.range' 1 (n - 1)) (s, W, false)
  sweep cfg sat n (List.range' 1 (n - 1)).reverse x

/-- `pursuit_plan_t` -/
structure Plan where
  waypoints : List Waypoint
  iterationsUsed : ℕ
  squaredErrors : List ℚ
  finalCost : ℚ

/-- The loop of `pursuit_plan_build`, with the rounds left: the waypoints, the rounds made, the errors. -/
def iterate (cfg : Config) (sat : Sampler σ) (n : ℕ) :
    ℕ → σ → (ℕ → Waypoint) → (used : ℕ) → (prevCost : ℚ) → List ℚ → (ℕ → Waypoint) × ℕ × List ℚ × ℚ
  | 0, _, W, used, prevCost, errs => (W, used, errs, prevCost)
  | left + 1, s, W, used, prevCost, _ =>
    let (s, W, moved) := planRound cfg sat n s W
    let (s, errs) := evaluateCost cfg sat W n s
    let cost := errs.sum
    let improvement := (prevCost - cost) / prevCost
    if 0 < prevCost ∧ 0 ≤ improvement ∧ improvement < cfg.costImprovementEps then (W, used + 1, errs, cost)
    else if moved = false then (W, used + 1, errs, cost)
    else iterate cfg sat n left s W (used + 1) cost errs

/-- The number of waypoints. -/
def waypointCount (cfg : Config) : ℕ :=
  let N := ⌊(cfg.julLos - cfg.julAos) / (cfg.waypointDtS / 86400)⌋₊ + 1
  let N := if N < 2 then 2 else N
  if 8192 < N then 8192 else N

/-- A waypoint at first: at the satellite, or at the antenna where that fails. -/
def seedRound (cfg : Config) (sat : Sampler σ) (n : ℕ) (x : σ × (ℕ → Waypoint)) (k : ℕ) : σ × (ℕ → Waypoint) :=
  let t := cfg.julAos + (k : ℚ) / ((n - 1 : ℕ) : ℚ) * (cfg.julLos - cfg.julAos)
  let (s, sample) := sat x.1 t
  let (az, el) := sample.getD (cfg.a0Unwrapped, cfg.e0)
  (s, Function.update x.2 k ⟨t, az, el⟩)

/-- The waypoints at first. -/
def seed (cfg : Config) (sat : Sampler σ) (n : ℕ) (s : σ) : σ × (ℕ → Waypoint) :=
  (List.range n).foldl (seedRound cfg sat n) (s, fun _ => ⟨0, 0, 0⟩)

/-- `pursuit_plan_build`; `none` for -1. -/
def pursuitPlanBuild (cfg : Config) (sat : Sampler σ) (s : σ) : Option Plan :=
  if cfg.julLos ≤ cfg.julAos then none
  else if cfg.rAzDps ≤ 0 ∨ cfg.rElDps ≤ 0 then none
  else if cfg.waypointDtS ≤ 0 then none
  else
    let n := waypointCount cfg
    let (s, W) := seed cfg sat n s
    let W := Function.update W 0 { W 0 with azUnwrapped := cfg.a0Unwrapped, el := cfg.e0 }
    let maxIter := if 0 < cfg.maxIter then cfg.maxIter.toNat else 6
    let maxIter := if 16 < maxIter then 16 else maxIter
    let (W, used, errs, prevCost) := iterate cfg sat n maxIter s W 0 (-1) []
    some { waypoints := (List.range n).map W, iterationsUsed := used, squaredErrors := errs,
           finalCost := if 0 ≤ prevCost then prevCost else 0 }

/-! ## One waypoint -/

theorem mem_axisBox_iff {axisMin axisMax before reach : ℚ} {after : Option (ℚ × ℚ)} {x : ℚ} :
    x ∈ Set.Icc (axisBox axisMin axisMax before reach after).1 (axisBox axisMin axisMax before reach after).2 ↔
      x ∈ Set.Icc axisMin axisMax ∧ |x - before| ≤ reach ∧
        ∀ value reach', after = some (value, reach') → |value - x| ≤ reach' := by
  have hlow : ∀ p q y : ℚ, (if p < q then q else p) ≤ y ↔ p ≤ y ∧ q ≤ y := by
    intro p q y
    split_ifs with h
    · exact ⟨fun hq => ⟨h.le.trans hq, hq⟩, And.right⟩
    · exact ⟨fun hp => ⟨hp, (not_lt.mp h).trans hp⟩, And.left⟩
  have hhigh : ∀ p q y : ℚ, y ≤ (if q < p then q else p) ↔ y ≤ p ∧ y ≤ q := by
    intro p q y
    split_ifs with h
    · exact ⟨fun hq => ⟨hq.trans h.le, hq⟩, And.right⟩
    · exact ⟨fun hp => ⟨hp, hp.trans (not_lt.mp h)⟩, And.left⟩
  cases after with
  | none =>
      simp only [axisBox, Set.mem_Icc, hlow, hhigh, abs_le]
      constructor
      · rintro ⟨⟨h1, h2⟩, h3, h4⟩
        exact ⟨⟨h2, h4⟩, ⟨by linarith, by linarith⟩, fun _ _ h => absurd h.symm (Option.some_ne_none _)⟩
      · rintro ⟨⟨h1, h2⟩, ⟨h3, h4⟩, -⟩
        exact ⟨⟨by linarith, h1⟩, by linarith, h2⟩
  | some p =>
      obtain ⟨value, reach'⟩ := p
      simp only [axisBox, Set.mem_Icc, hlow, hhigh, abs_le, Option.some.injEq, Prod.mk.injEq, and_imp]
      constructor
      · rintro ⟨⟨⟨h1, h2⟩, h3⟩, ⟨h4, h5⟩, h6⟩
        refine ⟨⟨h3, h6⟩, ⟨by linarith, by linarith⟩, ?_⟩
        rintro _ _ rfl rfl
        exact ⟨by linarith, by linarith⟩
      · rintro ⟨⟨h1, h2⟩, ⟨h3, h4⟩, h5⟩
        obtain ⟨h6, h7⟩ := h5 value reach' rfl rfl
        exact ⟨⟨⟨by linarith, by linarith⟩, h1⟩, ⟨by linarith, by linarith⟩, h2⟩

/-- What is put at a waypoint is in the bounds and within reach of the waypoint before. It is within reach of the one
behind as well, where the place has any value that is within reach of both. -/
theorem projectAxis_spec {axisMin axisMax before reach : ℚ} (hmem : before ∈ Set.Icc axisMin axisMax)
    (hreach : 0 ≤ reach) (after : Option (ℚ × ℚ)) (desired : ℚ) :
    projectAxis axisMin axisMax before reach after desired ∈ Set.Icc axisMin axisMax ∧
      |projectAxis axisMin axisMax before reach after desired - before| ≤ reach ∧
      ∀ value reach', after = some (value, reach') → ∀ x ∈ Set.Icc axisMin axisMax, |x - before| ≤ reach →
        |value - x| ≤ reach' → |value - projectAxis axisMin axisMax before reach after desired| ≤ reach' := by
  have hbounds : axisMin ≤ axisMax := hmem.1.trans hmem.2
  have hforward : ∀ new ∈ Set.Icc (before - reach) (before + reach), |clamp new axisMin axisMax - before| ≤ reach := by
    intro new hnew
    refine (abs_clamp_sub_le hmem).trans (abs_le.mpr ⟨?_, ?_⟩)
    · linarith [hnew.1]
    · linarith [hnew.2]
  unfold projectAxis
  dsimp only
  split_ifs with hempty
  · refine ⟨clamp_mem hbounds, hforward _ (clamp_mem (by linarith)), ?_⟩
    rintro value reach' rfl x hx hbefore hafter
    have hbox := mem_axisBox_iff.mpr ⟨hx, hbefore, fun _ _ h => by
      obtain ⟨rfl, rfl⟩ := Prod.mk.inj (Option.some.inj h)
      exact hafter⟩
    exact absurd (hbox.1.trans hbox.2) hempty.not_ge
  · obtain ⟨hin, hbefore, hafter⟩ := mem_axisBox_iff.mp (clamp_mem (v := desired) (not_lt.mp hempty))
    rw [clamp_eq_self hin]
    exact ⟨hin, hbefore, fun value reach' h _ _ _ _ => hafter value reach' h⟩

/-! ## The sweeps -/

/-- The times of the waypoints. -/
def grid (cfg : Config) (n k : ℕ) : ℚ := cfg.julAos + (k : ℚ) / ((n - 1 : ℕ) : ℚ) * (cfg.julLos - cfg.julAos)

/-- The seconds between two of them. -/
def stepSeconds (cfg : Config) (n : ℕ) : ℚ := (cfg.julLos - cfg.julAos) / ((n - 1 : ℕ) : ℚ) * 86400

/-- The first `m` of `n` waypoints keep to the bounds and the rates. -/
structure Steered (cfg : Config) (n m : ℕ) (W : ℕ → Waypoint) : Prop where
  times : ∀ k < n, (W k).julUtc = grid cfg n k
  start : (W 0).azUnwrapped = cfg.a0Unwrapped ∧ (W 0).el = cfg.e0
  az : Feasible (fun _ => cfg.rAzDps * stepSeconds cfg n) cfg.azMin cfg.azMax m fun k => (W k).azUnwrapped
  el : Feasible (fun _ => cfg.rElDps * stepSeconds cfg n) cfg.elMin cfg.elMax m fun k => (W k).el

variable {cfg : Config} (sat : Sampler σ) {n : ℕ} {W : ℕ → Waypoint}

theorem grid_succ (cfg : Config) (n k : ℕ) : (grid cfg n (k + 1) - grid cfg n k) * 86400 = stepSeconds cfg n := by
  unfold grid stepSeconds
  push_cast
  ring

theorem stepSeconds_pos (h : cfg.julAos < cfg.julLos) (hn : 2 ≤ n) : 0 < stepSeconds cfg n := by
  have hpos : (0 : ℚ) < ((n - 1 : ℕ) : ℚ) := by exact_mod_cast Nat.sub_pos_of_lt hn
  have hspan : 0 < cfg.julLos - cfg.julAos := sub_pos.mpr h
  unfold stepSeconds
  positivity

theorem seconds_eq (h : cfg.julAos < cfg.julLos) (hn : 2 ≤ n) (htimes : ∀ k < n, (W k).julUtc = grid cfg n k) {k : ℕ}
    (hk : k + 1 < n) : seconds (W k) (W (k + 1)) = stepSeconds cfg n := by
  unfold seconds
  rw [htimes _ hk, htimes k (by omega), grid_succ]
  exact if_neg (stepSeconds_pos h hn).le.not_gt

/-- A waypoint gets values that fit. -/
theorem projectWaypoint_spec (h : cfg.julAos < cfg.julLos) (hraz : 0 < cfg.rAzDps) (hrel : 0 < cfg.rElDps) (hn : 2 ≤ n)
    (htimes : ∀ k < n, (W k).julUtc = grid cfg n k) {k : ℕ} (hk : k + 1 < n)
    (haz : (W k).azUnwrapped ∈ Set.Icc cfg.azMin cfg.azMax) (hel : (W k).el ∈ Set.Icc cfg.elMin cfg.elMax) (s : σ) :
    ∃ az el,
      (projectWaypoint cfg sat n (k + 1) s W).2.1 =
        Function.update W (k + 1) { W (k + 1) with azUnwrapped := az, el := el } ∧
      Fits (fun _ => cfg.rAzDps * stepSeconds cfg n) cfg.azMin cfg.azMax n (fun k => (W k).azUnwrapped) k az ∧
      Fits (fun _ => cfg.rElDps * stepSeconds cfg n) cfg.elMin cfg.elMax n (fun k => (W k).el) k el := by
  have hstep := stepSeconds_pos h hn
  have hbefore := seconds_eq h hn htimes hk
  have hafter : ∀ value reach' r w : ℚ,
      (if k + 1 + 1 < n then some (w, r * seconds (W (k + 1)) (W (k + 1 + 1))) else none) = some (value, reach') ↔
        k + 2 < n ∧ w = value ∧ r * stepSeconds cfg n = reach' := by
    intro value reach' r w
    split_ifs with hlast
    · rw [seconds_eq h hn htimes hlast, Option.some.injEq, Prod.mk.injEq]
      exact (and_iff_right hlast).symm
    · exact ⟨False.elim, fun hboth => absurd hboth.1 hlast⟩
  unfold projectWaypoint
  rw [if_neg (by omega)]
  simp only [Nat.add_sub_cancel, hbefore]
  refine ⟨_, _, rfl, ?_, ?_⟩
  · obtain ⟨hmem, hnear, hbehind⟩ := projectAxis_spec haz (mul_pos hraz hstep).le
      (if k + 1 + 1 < n then some ((W (k + 1 + 1)).azUnwrapped, cfg.rAzDps * seconds (W (k + 1)) (W (k + 1 + 1)))
        else none)
      ((sat s (W (k + 1)).julUtc).2.getD ((W (k + 1)).azUnwrapped, (W (k + 1)).el)).1
    exact ⟨hmem, hnear, fun hlast hx hxb hxa => hbehind _ _ ((hafter _ _ _ _).mpr ⟨hlast, rfl, rfl⟩) _ hx hxb hxa⟩
  · obtain ⟨hmem, hnear, hbehind⟩ := projectAxis_spec hel (mul_pos hrel hstep).le
      (if k + 1 + 1 < n then some ((W (k + 1 + 1)).el, cfg.rElDps * seconds (W (k + 1)) (W (k + 1 + 1))) else none)
      ((sat s (W (k + 1)).julUtc).2.getD ((W (k + 1)).azUnwrapped, (W (k + 1)).el)).2
    exact ⟨hmem, hnear, fun hlast hx hxb hxa => hbehind _ _ ((hafter _ _ _ _).mpr ⟨hlast, rfl, rfl⟩) _ hx hxb hxa⟩

/-- What both kinds of sweep rely on. -/
structure Driven (cfg : Config) (n : ℕ) : Prop where
  span : cfg.julAos < cfg.julLos
  rAz : 0 < cfg.rAzDps
  rEl : 0 < cfg.rElDps
  two : 2 ≤ n

theorem Steered.mono {m m' : ℕ} (h : Steered cfg n m' W) (hm : m ≤ m') : Steered cfg n m W where
  times := h.times
  start := h.start
  az := ⟨fun k hk => h.az.mem k (hk.trans_le hm), fun k hk => h.az.near k (hk.trans_le hm)⟩
  el := ⟨fun k hk => h.el.mem k (hk.trans_le hm), fun k hk => h.el.near k (hk.trans_le hm)⟩

theorem update_fields (W : ℕ → Waypoint) (k : ℕ) (az el : ℚ) :
    (fun j => (Function.update W k { W k with azUnwrapped := az, el := el } j).azUnwrapped) =
        Function.update (fun j => (W j).azUnwrapped) k az ∧
      (fun j => (Function.update W k { W k with azUnwrapped := az, el := el } j).el) =
        Function.update (fun j => (W j).el) k el ∧
      ∀ j, (Function.update W k { W k with azUnwrapped := az, el := el } j).julUtc = (W j).julUtc := by
  refine ⟨?_, ?_, ?_⟩
  · exact Function.comp_update Waypoint.azUnwrapped W k _
  · exact Function.comp_update Waypoint.el W k _
  · intro j
    by_cases hj : j = k
    · rw [hj, Function.update_self]
    · rw [Function.update_of_ne hj]

/-- A waypoint at the end of what is steered, or inside it. -/
theorem Steered.project {m k : ℕ} (hd : Driven cfg n) (h : Steered cfg n m W) (hk : k + 1 < n)
    (hm : m = k + 1 ∨ m = n) (s : σ) :
    Steered cfg n (if m = n then n else k + 2) (projectWaypoint cfg sat n (k + 1) s W).2.1 := by
  have hkm : k < m := by omega
  obtain ⟨az, el, hW, haz, hel⟩ :=
    projectWaypoint_spec sat hd.span hd.rAz hd.rEl hd.two h.times hk (h.az.mem k hkm) (h.el.mem k hkm) s
  obtain ⟨hupaz, hupel, huptime⟩ := update_fields W (k + 1) az el
  rw [hW]
  refine ⟨?_, ?_, ?_, ?_⟩
  · intro j hj
    rw [huptime]
    exact h.times j hj
  · rw [Function.update_of_ne (Nat.succ_ne_zero k).symm]
    exact h.start
  · rw [hupaz]
    split_ifs with hmn
    · subst hmn
      exact h.az.replace hk haz
    · obtain rfl := hm.resolve_right hmn
      exact h.az.extend haz
  · rw [hupel]
    split_ifs with hmn
    · subst hmn
      exact h.el.replace hk hel
    · obtain rfl := hm.resolve_right hmn
      exact h.el.extend hel

/-- A plan that is steered stays so, whatever waypoints are projected. -/
theorem Steered.sweep (hd : Driven cfg n) (ks : List ℕ) {x : σ × (ℕ → Waypoint) × Bool}
    (h : Steered cfg n n x.2.1) : Steered cfg n n (sweep cfg sat n ks x).2.1 := by
  induction ks generalizing x with
  | nil => exact h
  | cons k ks ih =>
      refine ih ?_
      dsimp only
      rcases Nat.eq_zero_or_pos k with rfl | hpos
      · exact h
      · obtain ⟨k, rfl⟩ := Nat.exists_eq_succ_of_ne_zero hpos.ne'
        by_cases hk : k + 1 < n
        · have hstep := h.project sat hd hk (Or.inr rfl) x.1
          rwa [if_pos rfl] at hstep
        · unfold projectWaypoint
          rw [if_pos (Or.inr (not_lt.mp hk))]
          exact h

/-- The sweep forward steers one waypoint after the other. -/
theorem Steered.forward (hd : Driven cfg n) {x : σ × (ℕ → Waypoint) × Bool} (h : Steered cfg n 1 x.2.1) :
    ∀ j, j + 1 ≤ n → Steered cfg n (j + 1) (Pursuit.sweep cfg sat n (List.range' 1 j) x).2.1 := by
  intro j
  induction j with
  | zero => exact fun _ => h
  | succ j ih =>
      intro hj
      have hprev := ih (by omega)
      rw [List.range'_1_concat, Pursuit.sweep, List.foldl_append, ← Pursuit.sweep, Nat.add_comm 1 j]
      have hstep := hprev.project sat hd (show j + 1 < n by omega) (Or.inl rfl)
        (Pursuit.sweep cfg sat n (List.range' 1 j) x).1
      rwa [if_neg (by omega)] at hstep

/-- A round steers the whole plan. -/
theorem Steered.round (hd : Driven cfg n) (h : Steered cfg n 1 W) (s : σ) :
    Steered cfg n n (planRound cfg sat n s W).2.1 := by
  have hn : n - 1 + 1 = n := Nat.sub_add_cancel (Nat.one_le_of_lt hd.two)
  have hforward := Steered.forward sat hd (x := (s, W, false)) h (n - 1) hn.le
  rw [hn] at hforward
  exact hforward.sweep sat hd _

/-- So does the loop, whenever it stops. -/
theorem Steered.iterate (hd : Driven cfg n) : ∀ (left : ℕ) {s : σ} {W : ℕ → Waypoint} {used : ℕ} {prevCost : ℚ}
    {errs : List ℚ}, Steered cfg n n W → Steered cfg n n (iterate cfg sat n left s W used prevCost errs).1 := by
  intro left
  induction left with
  | zero => exact fun h => h
  | succ left ih =>
      intro s W used prevCost errs h
      have hround := (h.mono (Nat.one_le_of_lt hd.two)).round sat hd s
      rw [Pursuit.iterate]
      dsimp only
      split_ifs
      · exact hround
      · exact hround
      · exact ih hround

theorem Steered.iterate_first (hd : Driven cfg n) {left : ℕ} (hleft : 0 < left) {s : σ} {used : ℕ} {prevCost : ℚ}
    {errs : List ℚ} (h : Steered cfg n 1 W) :
    Steered cfg n n (Pursuit.iterate cfg sat n left s W used prevCost errs).1 := by
  obtain ⟨left, rfl⟩ := Nat.exists_eq_succ_of_ne_zero hleft.ne'
  have hround := h.round sat hd s
  rw [Pursuit.iterate]
  dsimp only
  split_ifs
  · exact hround
  · exact hround
  · exact hround.iterate sat hd left

/-! ## The plan -/

/-- A plan starts where the antenna is when the pass begins, ends with the pass, and keeps to the bounds and the rates
between one waypoint and the next. -/
structure Drivable (cfg : Config) (ws : List Waypoint) : Prop where
  first : ws.head? = some ⟨cfg.julAos, cfg.a0Unwrapped, cfg.e0⟩
  last : ws.getLast?.map Waypoint.julUtc = some cfg.julLos
  ascending : ws.IsChain fun v w => v.julUtc < w.julUtc
  bounds : ∀ w ∈ ws, w.azUnwrapped ∈ Set.Icc cfg.azMin cfg.azMax ∧ w.el ∈ Set.Icc cfg.elMin cfg.elMax
  rates : ws.IsChain fun v w =>
    |w.azUnwrapped - v.azUnwrapped| ≤ cfg.rAzDps * ((w.julUtc - v.julUtc) * 86400) ∧
      |w.el - v.el| ≤ cfg.rElDps * ((w.julUtc - v.julUtc) * 86400)

theorem grid_zero (cfg : Config) (n : ℕ) : grid cfg n 0 = cfg.julAos := by
  unfold grid
  rw [Nat.cast_zero, zero_div, zero_mul, add_zero]

theorem grid_last (cfg : Config) (hn : 2 ≤ n) : grid cfg n (n - 1) = cfg.julLos := by
  have hpos : ((n - 1 : ℕ) : ℚ) ≠ 0 := by
    have h : n - 1 ≠ 0 := by omega
    exact_mod_cast h
  unfold grid
  rw [div_self hpos]
  ring

theorem Steered.drivable (hd : Driven cfg n) (h : Steered cfg n n W) : Drivable cfg ((List.range n).map W) := by
  have htwo := hd.two
  have hsucc : n = n - 1 + 1 := by omega
  have hstep := stepSeconds_pos hd.span htwo
  have htime : ∀ k, k + 1 < n → ((W (k + 1)).julUtc - (W k).julUtc) * 86400 = stepSeconds cfg n := by
    intro k hk
    rw [h.times _ hk, h.times k (by omega), grid_succ]
  refine ⟨?_, ?_, ?_, ?_, ?_⟩
  · have hstart : W 0 = ⟨cfg.julAos, cfg.a0Unwrapped, cfg.e0⟩ := by
      have htime := h.times 0 (by omega)
      rw [grid_zero] at htime
      obtain ⟨haz, hel⟩ := h.start
      cases hW : W 0 with
      | mk t az el =>
          rw [hW] at htime haz hel
          simp only at htime haz hel
          rw [htime, haz, hel]
    rw [List.head?_map, List.head?_range, if_neg (by omega), Option.map_some, hstart]
  · rw [List.getLast?_map, List.getLast?_range, if_neg (by omega), Option.map_some, Option.map_some,
      h.times _ (by omega), grid_last cfg htwo]
  · rw [List.isChain_map, List.isChain_range]
    intro k hk
    have hk' := htime k (by omega)
    linarith
  · intro w hw
    obtain ⟨k, hk, rfl⟩ := List.mem_map.mp hw
    exact ⟨h.az.mem k (List.mem_range.mp hk), h.el.mem k (List.mem_range.mp hk)⟩
  · rw [List.isChain_map, List.isChain_range]
    intro k hk
    rw [htime k (by omega)]
    exact ⟨h.az.near k (by omega), h.el.near k (by omega)⟩

theorem seed_times (cfg : Config) (n : ℕ) (s : σ) :
    ∀ k < n, ((seed cfg sat n s).2 k).julUtc = grid cfg n k := by
  have hall : ∀ m, ∀ k < m, (((List.range m).foldl (seedRound cfg sat n) (s, fun _ => ⟨0, 0, 0⟩)).2 k).julUtc =
      grid cfg n k := by
    intro m
    induction m with
    | zero => exact fun k hk => absurd hk (Nat.not_lt_zero k)
    | succ m ih =>
        intro k hk
        rw [List.range_succ, List.foldl_append, List.foldl_cons, List.foldl_nil]
        unfold seedRound
        dsimp only
        rcases Nat.lt_or_eq_of_le (Nat.le_of_lt_succ hk) with hlt | rfl
        · rw [Function.update_of_ne hlt.ne]
          exact ih k hlt
        · rw [Function.update_self]
          rfl
  exact hall n

theorem two_le_waypointCount (cfg : Config) : 2 ≤ waypointCount cfg := by
  unfold waypointCount
  dsimp only
  split_ifs <;> omega

/-- When a plan is built. -/
theorem pursuitPlanBuild_isSome_iff (cfg : Config) (s : σ) :
    (pursuitPlanBuild cfg sat s).isSome = true ↔
      cfg.julAos < cfg.julLos ∧ (0 < cfg.rAzDps ∧ 0 < cfg.rElDps) ∧ 0 < cfg.waypointDtS := by
  unfold pursuitPlanBuild
  by_cases hspan : cfg.julLos ≤ cfg.julAos
  · rw [if_pos hspan]
    exact iff_of_false Bool.false_ne_true fun h => hspan.not_gt h.1
  by_cases hrates : cfg.rAzDps ≤ 0 ∨ cfg.rElDps ≤ 0
  · rw [if_neg hspan, if_pos hrates]
    refine iff_of_false Bool.false_ne_true fun h => ?_
    exact hrates.elim h.2.1.1.not_ge h.2.1.2.not_ge
  by_cases hdt : cfg.waypointDtS ≤ 0
  · rw [if_neg hspan, if_neg hrates, if_pos hdt]
    exact iff_of_false Bool.false_ne_true fun h => hdt.not_gt h.2.2
  · rw [if_neg hspan, if_neg hrates, if_neg hdt]
    rw [not_or, not_le, not_le] at hrates
    exact iff_of_true rfl ⟨not_le.mp hspan, hrates, not_le.mp hdt⟩

/-- **A plan is drivable.** Whatever the satellite does, and wherever it is not known, the plan for a start within the
bounds begins there, ends with the pass, and asks of each axis no more than its rate between a waypoint and the
next. -/
theorem plan_drivable {cfg : Config} {s : σ} {plan : Plan} (hplan : pursuitPlanBuild cfg sat s = some plan)
    (haz : cfg.a0Unwrapped ∈ Set.Icc cfg.azMin cfg.azMax) (hel : cfg.e0 ∈ Set.Icc cfg.elMin cfg.elMax) :
    Drivable cfg plan.waypoints := by
  obtain ⟨hspan, hrates, hdt⟩ := (pursuitPlanBuild_isSome_iff sat cfg s).mp (by rw [hplan]; rfl)
  have hrates' : ¬ (cfg.rAzDps ≤ 0 ∨ cfg.rElDps ≤ 0) := not_or.mpr ⟨hrates.1.not_ge, hrates.2.not_ge⟩
  unfold pursuitPlanBuild at hplan
  rw [if_neg hspan.not_ge, if_neg hrates', if_neg hdt.not_ge] at hplan
  have hd : Driven cfg (waypointCount cfg) :=
    ⟨hspan, hrates.1, hrates.2, two_le_waypointCount cfg⟩
  have htwo := hd.two
  have hstart : Steered cfg (waypointCount cfg) 1
      (Function.update (seed cfg sat (waypointCount cfg) s).2 0
        { (seed cfg sat (waypointCount cfg) s).2 0 with azUnwrapped := cfg.a0Unwrapped, el := cfg.e0 }) := by
    obtain ⟨-, -, htime⟩ := update_fields (seed cfg sat (waypointCount cfg) s).2 0 cfg.a0Unwrapped cfg.e0
    refine ⟨?_, ?_, Feasible.one ?_, Feasible.one ?_⟩
    · intro k hk
      rw [htime, seed_times sat cfg _ s k hk]
    · rw [Function.update_self]
      exact ⟨rfl, rfl⟩
    · rw [Function.update_self]
      exact haz
    · rw [Function.update_self]
      exact hel
  have hiter : ∀ maxIter : ℕ, 0 < maxIter → 0 < (if 16 < maxIter then 16 else maxIter) := by
    intro maxIter hpos
    split_ifs <;> omega
  have hfirst : 0 < (if 0 < cfg.maxIter then cfg.maxIter.toNat else 6) := by
    split_ifs <;> omega
  obtain rfl := (Option.some.inj hplan).symm
  exact (hstart.iterate_first sat hd (hiter _ hfirst)).drivable hd

/-- Twenty seconds at one degree a second. -/
def shortPass : Config where
  julAos := 0
  julLos := 20 / 86400
  waypointDtS := 5
  denseDtS := 1
  maxIter := 6
  costImprovementEps := 5 / 1000
  rAzDps := 1
  rElDps := 1
  azMin := -179
  azMax := 539
  elMin := -5
  elMax := 180
  a0Unwrapped := 0
  e0 := 0

/-- A satellite five times as fast, that is lost after ten seconds. -/
def fastSatellite : Sampler Unit := fun s t => (s, if t < 10 / 86400 then some (432000 * t, 10) else none)

theorem plan_drivable_short :
    ∃ plan, pursuitPlanBuild shortPass fastSatellite () = some plan ∧ Drivable shortPass plan.waypoints := by
  have hsome : (pursuitPlanBuild shortPass fastSatellite ()).isSome = true :=
    (pursuitPlanBuild_isSome_iff fastSatellite shortPass ()).mpr (by norm_num [shortPass])
  obtain ⟨plan, hplan⟩ := Option.isSome_iff_exists.mp hsome
  exact ⟨plan, hplan, plan_drivable fastSatellite hplan (by norm_num [shortPass]) (by norm_num [shortPass])⟩

end SimpleSatOps.Pursuit
