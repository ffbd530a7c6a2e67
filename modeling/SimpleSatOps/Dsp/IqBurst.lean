import SimpleSatOps.Dsp.Fft
import SimpleSatOps.Lib.Blocks
import SimpleSatOps.Lib.Libm

/-!
# The detector of broadband bursts (`iq_burst.c`)

Numbers are exact; the functions of the C library are a parameter.

* `iqBurstNew`, `processFrame`, `iqBurstPush` : the detector;
* `level`, `track` : the power of a bin of a frame, and the floor that follows it;
* `processFrame_spec` : one frame;
* `iqBurst_run` : pieces of any size leave what the whole frames among them say.
-/

namespace SimpleSatOps.BurstDetector

open Fft

/-- `struct iq_burst`; `none` is the `-INFINITY` of `last_peak_excess_db`. -/
structure IqBurst (F : Type*) where
  nFft : ℕ
  thresholdDb : F
  alpha : F
  win : ℕ → F
  floorDb : ℕ → F
  haveFloor : Bool
  accum : ℕ → ℤ × ℤ
  accumPairs : ℕ
  lastBrightBins : ℕ
  lastPeakExcessDb : WithBot F
  frameCount : ℕ

section
variable {F : Type*} [Field F] [LinearOrder F]

def isPow2 (n : ℕ) : Bool := 0 < n && n &&& (n - 1) == 0

/-- `iq_burst_new`. -/
def iqBurstNew (M : Libm F) (nFft : ℕ) (sampleRateHz thresholdDb floorTauS : F) : Option (IqBurst F) :=
  if !isPow2 nFft || nFft < 16 || sampleRateHz ≤ 0 then none
  else if floorTauS ≤ 0 then none
  else some {
    nFft := nFft
    thresholdDb := thresholdDb
    alpha := 1 - M.exp (-(nFft / sampleRateHz) / floorTauS)
    win := fun k => 1 / (2 : ℕ) * (1 - M.cos ((2 : ℕ) * M.pi * k / (nFft - 1 : ℕ)))
    floorDb := fun _ => 0
    haveFloor := false
    accum := fun _ => (0, 0)
    accumPairs := 0
    lastBrightBins := 0
    lastPeakExcessDb := ⊥
    frameCount := 0 }

/-- The windowed frame, and its transform. -/
def spectrum (M : Libm F) (b : IqBurst F) : Signal F :=
  wfFftForward (fun len => M.cos (-(2 : ℕ) * M.pi / len)) (fun len => M.sin (-(2 : ℕ) * M.pi / len)) b.nFft
    ⟨fun k => (b.accum k).1 * b.win k, fun k => (b.accum k).2 * b.win k⟩

def powerDb (M : Libm F) (z : Signal F) (k : ℕ) : F :=
  10 * M.log10 (z.re k * z.re k + z.im k * z.im k + 1 / 1000000)

/-- The floor, the number of bright bins and the largest excess, on the way through the bins. -/
structure Pass (F : Type*) where
  floorDb : ℕ → F
  bright : ℕ
  peakExcess : WithBot F

/-- The body of the loop over the bins. -/
def binRound (b : IqBurst F) (pDb : ℕ → F) (s : Pass F) (k : ℕ) : Pass F :=
  if !b.haveFloor then { s with floorDb := Function.update s.floorDb k (pDb k) }
  else
    let excess := pDb k - s.floorDb k
    let s := if s.peakExcess < (excess : WithBot F) then { s with peakExcess := (excess : WithBot F) } else s
    if b.thresholdDb < excess then { s with bright := s.bright + 1 }
    else { s with floorDb := Function.update s.floorDb k ((1 - b.alpha) * s.floorDb k + b.alpha * pDb k) }

/-- `process_frame`. -/
def processFrame (M : Libm F) (b : IqBurst F) : IqBurst F :=
  let s := (List.range b.nFft).foldl (binRound b (powerDb M (spectrum M b))) ⟨b.floorDb, 0, ⊥⟩
  { b with
    floorDb := s.floorDb
    haveFloor := true
    lastBrightBins := if b.haveFloor then s.bright else 0
    lastPeakExcessDb := if b.haveFloor then s.peakExcess else ((0 : F) : WithBot F)
    frameCount := b.frameCount + 1 }

/-- One round of the loop of `iq_burst_push`, with the pairs it takes. -/
def take (M : Libm F) (b : IqBurst F) (piece : List (ℤ × ℤ)) : IqBurst F :=
  let b := { b with
    accum := fun i => if b.accumPairs ≤ i then piece.getD (i - b.accumPairs) (b.accum i) else b.accum i
    accumPairs := b.accumPairs + piece.length }
  if b.accumPairs = b.nFft then { processFrame M b with accumPairs := 0 } else b

/-- `iq_burst_push`; `none` where the loop takes no pairs any more. -/
def iqBurstPush (M : Libm F) (b : IqBurst F) (iq : List (ℤ × ℤ)) : Option (IqBurst F) :=
  if iq = [] then some b
  else
    let n := min iq.length (b.nFft - b.accumPairs)
    if n = 0 then none else iqBurstPush M (take M b (iq.take n)) (iq.drop n)
termination_by iq.length
decreasing_by
  have hpos : 0 < iq.length := List.length_pos_of_ne_nil (by assumption)
  rw [List.length_drop]
  omega

end

/-! ## What the bins say -/

/-- The Hann window. -/
noncomputable def hann (n t : ℕ) : ℝ := 1 / (2 : ℕ) * (1 - Real.cos ((2 : ℕ) * Real.pi * t / (n - 1 : ℕ)))

/-- A bin of the Fourier transform of the windowed frame. -/
noncomputable def tone (n : ℕ) (frame : List (ℤ × ℤ)) (k : ℕ) : ℂ :=
  ∑ t ∈ Finset.range n, (hann n t : ℂ) * ((frame.getD t (0, 0)).1 + (frame.getD t (0, 0)).2 * Complex.I) *
    Complex.exp (-((2 : ℕ) * Real.pi * t * k / n) * Complex.I)

/-- Its power in decibels. -/
noncomputable def level (n k : ℕ) (frame : List (ℤ × ℤ)) : ℝ :=
  10 * Real.logb 10 (‖tone n frame k‖ ^ 2 + 1 / 1000000)

/-- The floor stands still under a bright bin. -/
noncomputable def follow (thr α floor x : ℝ) : ℝ := if thr < x - floor then floor else (1 - α) * floor + α * x

/-- The floor that follows the levels of a bin from the first one on. -/
noncomputable def track (thr α : ℝ) : List ℝ → ℝ
  | [] => 0
  | x :: xs => xs.foldl (follow thr α) x

/-- How far a bin of the last frame is above the floor of the frames before. -/
noncomputable def excess (n : ℕ) (thr α : ℝ) (before : List (List (ℤ × ℤ))) (last : List (ℤ × ℤ)) (k : ℕ) : ℝ :=
  level n k last - track thr α (before.map (level n k))

/-- The number of bright bins and the largest excess that the last of the frames leaves. -/
noncomputable def reading (n : ℕ) (thr α : ℝ) (frames : List (List (ℤ × ℤ))) : ℕ × WithBot ℝ :=
  match frames.getLast? with
  | none => (0, ⊥)
  | some last =>
    if frames.dropLast = [] then (0, ((0 : ℝ) : WithBot ℝ))
    else (((Finset.range n).filter fun k => thr < excess n thr α frames.dropLast last k).card,
      (Finset.range n).sup fun k => ((excess n thr α frames.dropLast last k : ℝ) : WithBot ℝ))


/-! ## One frame -/

theorem track_append (thr α : ℝ) {xs : List ℝ} (h : xs ≠ []) (x : ℝ) :
    track thr α (xs ++ [x]) = follow thr α (track thr α xs) x := by
  obtain ⟨y, ys, rfl⟩ := List.exists_cons_of_ne_nil h
  rw [List.cons_append, track, List.foldl_append, List.foldl_cons, List.foldl_nil, track]

section
variable {b : IqBurst ℝ}

/-- The first frame is the floor. -/
theorem pass_seed (h : b.haveFloor = false) (pDb : ℕ → ℝ) (m : ℕ) :
    (List.range m).foldl (binRound b pDb) ⟨b.floorDb, 0, ⊥⟩ =
      ⟨fun k => if k < m then pDb k else b.floorDb k, 0, ⊥⟩ := by
  induction m with
  | zero => rfl
  | succ m ih =>
      rw [List.range_succ, List.foldl_append, ih, List.foldl_cons, List.foldl_nil, binRound, h]
      have hfloor : Function.update (fun k => if k < m then pDb k else b.floorDb k) m (pDb m) =
          fun k => if k < m + 1 then pDb k else b.floorDb k := by
        funext k
        rw [Function.update_apply]
        split_ifs <;> first | rfl | omega | (subst_vars; rfl)
      exact congrArg (fun f => (⟨f, 0, ⊥⟩ : Pass ℝ)) hfloor

/-- The round of a bin of a later frame. -/
theorem binRound_watch (h : b.haveFloor = true) (pDb : ℕ → ℝ) (s : Pass ℝ) (k : ℕ) :
    binRound b pDb s k =
      ⟨Function.update s.floorDb k (follow b.thresholdDb b.alpha (s.floorDb k) (pDb k)),
        s.bright + if b.thresholdDb < pDb k - s.floorDb k then 1 else 0,
        ((pDb k - s.floorDb k : ℝ) : WithBot ℝ) ⊔ s.peakExcess⟩ := by
  have hsup : ((pDb k - s.floorDb k : ℝ) : WithBot ℝ) ⊔ s.peakExcess =
      if s.peakExcess < ((pDb k - s.floorDb k : ℝ) : WithBot ℝ) then ((pDb k - s.floorDb k : ℝ) : WithBot ℝ)
      else s.peakExcess := by
    split_ifs with hlt
    · exact sup_eq_left.mpr hlt.le
    · exact sup_eq_right.mpr (not_lt.mp hlt)
  unfold binRound follow
  rw [h, hsup]
  by_cases hbright : b.thresholdDb < pDb k - s.floorDb k
  · simp only [hbright, if_true, Bool.not_true, Bool.false_eq_true, if_false, Function.update_eq_self]
    split_ifs <;> rfl
  · simp only [hbright, if_false, Bool.not_true, Bool.false_eq_true]
    split_ifs <;> rfl

/-- A later frame: the excess of every bin is over its floor before the frame. -/
theorem pass_watch (h : b.haveFloor = true) (pDb : ℕ → ℝ) (m : ℕ) :
    (List.range m).foldl (binRound b pDb) ⟨b.floorDb, 0, ⊥⟩ =
      ⟨fun k => if k < m then follow b.thresholdDb b.alpha (b.floorDb k) (pDb k) else b.floorDb k,
        ((Finset.range m).filter fun k => b.thresholdDb < pDb k - b.floorDb k).card,
        (Finset.range m).sup fun k => ((pDb k - b.floorDb k : ℝ) : WithBot ℝ)⟩ := by
  induction m with
  | zero => rfl
  | succ m ih =>
      have hfloor : ∀ v, Function.update (fun k => if k < m then follow b.thresholdDb b.alpha (b.floorDb k) (pDb k)
          else b.floorDb k) m v = fun k => if k < m then follow b.thresholdDb b.alpha (b.floorDb k) (pDb k)
            else if k = m then v else b.floorDb k := by
        intro v
        funext k
        rw [Function.update_apply]
        split_ifs <;> first | rfl | omega
      rw [List.range_succ, List.foldl_append, ih, List.foldl_cons, List.foldl_nil, binRound_watch h]
      simp only [lt_irrefl, if_false]
      rw [hfloor, Finset.range_add_one, Finset.sup_insert, Finset.card_filter, Finset.card_filter,
        Finset.sum_insert Finset.notMem_range_self, Nat.add_comm]
      congr 1
      funext k
      split_ifs <;> first | rfl | omega | (subst_vars; rfl)

/-- The power of the bins of the frame in the accumulator. -/
theorem powerDb_spectrum {n m : ℕ} {frame : List (ℤ × ℤ)} (hn : b.nFft = n) (hpow : n = 2 ^ m) (hwin : b.win = hann n)
    (hacc : ∀ t < n, b.accum t = frame.getD t (0, 0)) {k : ℕ} (hk : k < n) :
    powerDb Libm.real (spectrum Libm.real b) k = level n k frame := by
  subst hpow
  have htone : (spectrum Libm.real b).toComplex k = tone (2 ^ m) frame k := by
    unfold spectrum
    rw [hn]
    refine ((staged_forward m _).1.output hk).trans (Finset.sum_congr rfl fun t ht => ?_)
    rw [root_pow, hwin, Nat.cast_pow, Nat.cast_ofNat, Signal.toComplex]
    dsimp only
    rw [hacc t (Finset.mem_range.mp ht)]
    congr 1
    exact Complex.ext (by simp [mul_comm]) (by simp [mul_comm])
  have hnorm : ‖tone (2 ^ m) frame k‖ ^ 2 = (spectrum Libm.real b).re k * (spectrum Libm.real b).re k +
      (spectrum Libm.real b).im k * (spectrum Libm.real b).im k := by
    rw [← htone, Complex.sq_norm]
    rfl
  rw [level, hnorm]
  rfl

end

/-- What the frames so far have made of the detector. -/
structure Ran (n : ℕ) (thr α : ℝ) (frames : List (List (ℤ × ℤ))) (b : IqBurst ℝ) : Prop where
  nFft : b.nFft = n
  thresholdDb : b.thresholdDb = thr
  alpha : b.alpha = α
  win : b.win = hann n
  haveFloor : b.haveFloor = !frames.isEmpty
  floorDb : frames ≠ [] → ∀ k < n, b.floorDb k = track thr α (frames.map (level n k))
  reading : (b.lastBrightBins, b.lastPeakExcessDb) = reading n thr α frames
  frameCount : b.frameCount = frames.length

/-- No frame is in the accumulator yet. -/
theorem Ran.accum {n : ℕ} {thr α : ℝ} {frames : List (List (ℤ × ℤ))} {b : IqBurst ℝ} (h : Ran n thr α frames b)
    (acc : ℕ → ℤ × ℤ) (pairs : ℕ) : Ran n thr α frames { b with accum := acc, accumPairs := pairs } :=
  ⟨h.nFft, h.thresholdDb, h.alpha, h.win, h.haveFloor, h.floorDb, h.reading, h.frameCount⟩

theorem reading_append (n : ℕ) (thr α : ℝ) {frames : List (List (ℤ × ℤ))} (frame : List (ℤ × ℤ)) :
    reading n thr α (frames ++ [frame]) = if frames = [] then (0, ((0 : ℝ) : WithBot ℝ))
      else (((Finset.range n).filter fun k => thr < excess n thr α frames frame k).card,
        (Finset.range n).sup fun k => ((excess n thr α frames frame k : ℝ) : WithBot ℝ)) := by
  rw [reading, List.getLast?_concat, List.dropLast_concat]

/-- **One frame.** -/
theorem processFrame_spec {n m : ℕ} {thr α : ℝ} {frames : List (List (ℤ × ℤ))} {b : IqBurst ℝ}
    (h : Ran n thr α frames b) (hpow : n = 2 ^ m) (frame : List (ℤ × ℤ))
    (hacc : ∀ t < n, b.accum t = frame.getD t (0, 0)) :
    Ran n thr α (frames ++ [frame]) (processFrame Libm.real b) := by
  have hlevel : ∀ k < n, powerDb Libm.real (spectrum Libm.real b) k = level n k frame :=
    fun k hk => powerDb_spectrum h.nFft hpow h.win hacc hk
  have hcount : (frames ++ [frame]).length = frames.length + 1 := by
    rw [List.length_append, List.length_singleton]
  have hmore : (!(frames ++ [frame]).isEmpty) = true := by simp
  by_cases hframes : frames = []
  · have hfirst : b.haveFloor = false := by
      rw [h.haveFloor, hframes]
      rfl
    have hrun : processFrame Libm.real b = { b with
        floorDb := fun k => if k < b.nFft then powerDb Libm.real (spectrum Libm.real b) k else b.floorDb k
        haveFloor := true
        lastBrightBins := 0
        lastPeakExcessDb := ((0 : ℝ) : WithBot ℝ)
        frameCount := b.frameCount + 1 } := by
      unfold processFrame
      rw [pass_seed hfirst, hfirst]
      rfl
    rw [hrun]
    refine ⟨h.nFft, h.thresholdDb, h.alpha, h.win, hmore.symm, fun _ k hk => ?_, ?_, ?_⟩
    · rw [hframes, List.nil_append, List.map_singleton]
      dsimp only
      rw [h.nFft, if_pos hk, hlevel k hk]
      rfl
    · rw [reading_append, if_pos hframes]
    · rw [hcount, ← h.frameCount]
  · have hlater : b.haveFloor = true := by
      rw [h.haveFloor]
      simpa using hframes
    have hfloor := h.floorDb hframes
    have hexcess : ∀ k < n,
        powerDb Libm.real (spectrum Libm.real b) k - b.floorDb k = excess n thr α frames frame k := by
      intro k hk
      rw [hlevel k hk, hfloor k hk, excess]
    have hrun : processFrame Libm.real b = { b with
        floorDb := fun k => if k < n then follow thr α (b.floorDb k) (powerDb Libm.real (spectrum Libm.real b) k)
          else b.floorDb k
        haveFloor := true
        lastBrightBins := ((Finset.range n).filter fun k => thr < excess n thr α frames frame k).card
        lastPeakExcessDb := (Finset.range n).sup fun k => ((excess n thr α frames frame k : ℝ) : WithBot ℝ)
        frameCount := b.frameCount + 1 } := by
      unfold processFrame
      rw [pass_watch hlater, hlater, h.nFft, h.thresholdDb, h.alpha]
      dsimp only
      rw [if_pos rfl, if_pos rfl, Finset.sup_congr rfl fun k hk => by rw [hexcess k (Finset.mem_range.mp hk)],
        Finset.filter_congr fun k hk => by rw [hexcess k (Finset.mem_range.mp hk)]]
    rw [hrun]
    refine ⟨h.nFft, h.thresholdDb, h.alpha, h.win, hmore.symm, fun _ k hk => ?_, ?_, ?_⟩
    · dsimp only
      rw [if_pos hk, hlevel k hk, hfloor k hk, List.map_append, List.map_singleton,
        track_append thr α (by simpa using hframes)]
    · rw [reading_append, if_neg hframes]
    · rw [hcount, ← h.frameCount]

/-! ## Pieces of any size -/

/-- The pairs of the open frame. -/
def Holds (rest : List (ℤ × ℤ)) (b : IqBurst ℝ) : Prop :=
  b.accumPairs = rest.length ∧ ∀ i < rest.length, b.accum i = rest.getD i (0, 0)

/-- The detector after the stream `xs`. -/
def After (n : ℕ) (thr α : ℝ) (xs : List (ℤ × ℤ)) (b : IqBurst ℝ) : Prop :=
  ∃ frames rest, Cut n xs frames rest ∧ Ran n thr α frames b ∧ Holds rest b

variable {n m : ℕ} {thr α : ℝ}

/-- The pairs behind those that the accumulator holds. -/
theorem accum_piece {rest piece : List (ℤ × ℤ)} {b : IqBurst ℝ} (h : Holds rest b) {i : ℕ}
    (hi : i < (rest ++ piece).length) :
    (if b.accumPairs ≤ i then piece.getD (i - b.accumPairs) (b.accum i) else b.accum i) =
      (rest ++ piece).getD i (0, 0) := by
  rw [List.length_append] at hi
  rw [h.1]
  split_ifs with hle
  · rw [List.getD_append_right _ _ _ _ hle, List.getD_eq_getElem _ _ (by omega), List.getD_eq_getElem _ _ (by omega)]
  · rw [List.getD_append _ _ _ _ (by omega), h.2 i (by omega)]

/-- One round of the loop. -/
theorem After.take (hpow : n = 2 ^ m) {xs piece : List (ℤ × ℤ)} {b : IqBurst ℝ} (h : After n thr α xs b)
    (hle : piece.length ≤ n - b.accumPairs) : After n thr α (xs ++ piece) (take Libm.real b piece) := by
  obtain ⟨frames, rest, hcut, hran, hholds⟩ := h
  have hlt := hcut.lt
  have hpairs := hholds.1
  obtain rfl : b.nFft = n := hran.nFft
  unfold BurstDetector.take
  dsimp only
  by_cases hfull : b.accumPairs + piece.length = b.nFft
  · have hlen : (rest ++ piece).length = b.nFft := by
      rw [List.length_append]
      omega
    rw [if_pos hfull]
    refine ⟨_, _, hcut.append_full (by omega), ?_, rfl, by simp⟩
    exact (processFrame_spec (hran.accum _ _) hpow (rest ++ piece) fun t ht => accum_piece hholds (by omega)).accum _ _
  · rw [if_neg hfull]
    refine ⟨frames, rest ++ piece, hcut.append (by omega), hran.accum _ _, ?_, fun i hi => accum_piece hholds hi⟩
    dsimp only
    rw [hpairs, List.length_append]

/-- `iq_burst_push` takes all pairs. -/
theorem After.push (hpow : n = 2 ^ m) {xs : List (ℤ × ℤ)} (iq : List (ℤ × ℤ)) {b : IqBurst ℝ} (h : After n thr α xs b) :
    ∃ b', iqBurstPush Libm.real b iq = some b' ∧ After n thr α (xs ++ iq) b' := by
  induction hlen : iq.length using Nat.strong_induction_on generalizing iq b xs with
  | _ len ih =>
      rw [iqBurstPush]
      by_cases hnil : iq = []
      · rw [if_pos hnil, hnil, List.append_nil]
        exact ⟨b, rfl, h⟩
      · have hpos : 0 < iq.length := List.length_pos_of_ne_nil hnil
        have hroom : 0 < b.nFft - b.accumPairs ∧ b.nFft = n := by
          obtain ⟨frames, rest, hcut, hran, hholds⟩ := h
          have hlt := hcut.lt
          rw [hran.nFft, hholds.1]
          exact ⟨by omega, rfl⟩
        rw [if_neg hnil]
        dsimp only
        rw [if_neg (by omega)]
        have hle : (iq.take (min iq.length (b.nFft - b.accumPairs))).length ≤ n - b.accumPairs := by
          rw [List.length_take]
          omega
        have htake := h.take hpow hle
        obtain ⟨b', hrun, hafter⟩ := ih _ (by rw [List.length_drop]; omega)
          (iq.drop (min iq.length (b.nFft - b.accumPairs))) htake rfl
        rw [List.append_assoc, List.take_append_drop] at hafter
        exact ⟨b', hrun, hafter⟩

theorem isPow2_iff {n : ℕ} : isPow2 n = true ↔ ∃ m, n = 2 ^ m := by
  rw [isPow2, Bool.and_eq_true, decide_eq_true_eq, beq_iff_eq, Nat.pos_iff_ne_zero]
  exact Nat.ne_zero_and_sub_one_eq_zero_iff_isPowerOfTwo

/-- A new detector has seen nothing. -/
theorem After.new {rate tau : ℝ} {b : IqBurst ℝ} (h : iqBurstNew Libm.real n rate thr tau = some b) :
    (∃ m, n = 2 ^ m) ∧ 16 ≤ n ∧ 0 < rate ∧ 0 < tau ∧ After n thr (1 - Real.exp (-(n / rate) / tau)) [] b := by
  unfold iqBurstNew at h
  split at h
  · exact nomatch h
  next hfirst =>
    split at h
    · exact nomatch h
    next hsecond =>
      simp only [Bool.or_eq_true, Bool.not_eq_true', decide_eq_true_eq, not_or, not_lt, not_le,
        Bool.not_eq_false] at hfirst
      obtain ⟨⟨hpow, hsize⟩, hrate⟩ := hfirst
      obtain rfl := Option.some.inj h
      refine ⟨isPow2_iff.mp hpow, hsize, hrate, not_le.mp hsecond, [], [], .nil (by omega),
        ⟨rfl, rfl, rfl, rfl, rfl, fun hne => absurd rfl hne, rfl, rfl⟩, rfl, by simp⟩

/-- A bin is bright exactly if the largest excess is over the threshold. -/
theorem reading_bright_iff (n : ℕ) {thr : ℝ} (α : ℝ) (hthr : 0 ≤ thr) (frames : List (List (ℤ × ℤ))) :
    0 < (reading n thr α frames).1 ↔ (thr : WithBot ℝ) < (reading n thr α frames).2 := by
  rcases List.eq_nil_or_concat' frames with rfl | ⟨before, last, rfl⟩
  · exact iff_of_false (lt_irrefl 0) not_lt_bot
  · rw [reading_append]
    by_cases hfirst : before = []
    · rw [if_pos hfirst]
      refine iff_of_false (lt_irrefl 0) (not_lt.mpr ?_)
      exact WithBot.coe_le_coe.mpr hthr
    · rw [if_neg hfirst]
      dsimp only
      rw [Finset.card_pos, Finset.lt_sup_iff, Finset.filter_nonempty_iff]
      simp only [WithBot.coe_lt_coe]

/-- The floor does not leave the levels it has followed. -/
theorem track_mem {thr α lo hi : ℝ} (hα : 0 ≤ α) (hα' : α ≤ 1) {levels : List ℝ} (h : levels ≠ [])
    (hall : ∀ x ∈ levels, lo ≤ x ∧ x ≤ hi) : lo ≤ track thr α levels ∧ track thr α levels ≤ hi := by
  induction levels using List.reverseRecOn with
  | nil => exact absurd rfl h
  | append_singleton levels x ih =>
      obtain ⟨hlo, hhi⟩ := hall x (by simp)
      by_cases hnil : levels = []
      · subst hnil
        exact ⟨hlo, hhi⟩
      · obtain ⟨hlo', hhi'⟩ := ih hnil fun y hy => hall y (by simp [hy])
        rw [track_append thr α hnil, follow]
        split_ifs
        · exact ⟨hlo', hhi'⟩
        · constructor <;> nlinarith

/-- **The burst detector.** Pieces of any size leave the reading of the whole frames of `n_fft` pairs among them. -/
theorem iqBurst_run {rate tau : ℝ} {b : IqBurst ℝ} (hnew : iqBurstNew Libm.real n rate thr tau = some b)
    (pieces : List (List (ℤ × ℤ))) :
    ∃ b', pieces.foldlM (iqBurstPush Libm.real) b = some b' ∧
      b'.frameCount = (cut n pieces.flatten).1.length ∧
      b'.accumPairs = (cut n pieces.flatten).2.length ∧
      (b'.lastBrightBins, b'.lastPeakExcessDb) =
        reading n thr (1 - Real.exp (-(n / rate) / tau)) (cut n pieces.flatten).1 ∧
      (0 ≤ thr → (0 < b'.lastBrightBins ↔ (thr : WithBot ℝ) < b'.lastPeakExcessDb)) ∧
      ((cut n pieces.flatten).1 ≠ [] → ∀ k < n, ∀ lo hi,
        (∀ frame ∈ (cut n pieces.flatten).1, lo ≤ level n k frame ∧ level n k frame ≤ hi) →
          lo ≤ b'.floorDb k ∧ b'.floorDb k ≤ hi) := by
  obtain ⟨⟨m, hpow⟩, -, hrate, htau, hafter⟩ := After.new hnew
  have hrun : ∀ (pieces : List (List (ℤ × ℤ))) (xs : List (ℤ × ℤ)) (b : IqBurst ℝ),
      After n thr (1 - Real.exp (-(n / rate) / tau)) xs b → ∃ b', pieces.foldlM (iqBurstPush Libm.real) b = some b' ∧
        After n thr (1 - Real.exp (-(n / rate) / tau)) (xs ++ pieces.flatten) b' := by
    intro pieces
    induction pieces with
    | nil => exact fun xs b h => ⟨b, rfl, by rwa [List.flatten_nil, List.append_nil]⟩
    | cons piece pieces ih =>
        intro xs b h
        obtain ⟨b₁, hpush, hafter₁⟩ := h.push hpow piece
        obtain ⟨b', hrest, hafter'⟩ := ih _ b₁ hafter₁
        refine ⟨b', by rw [List.foldlM_cons, hpush]; exact hrest, ?_⟩
        rwa [List.flatten_cons, ← List.append_assoc]
  obtain ⟨b', hpushed, frames, rest, hcut, hran, hholds⟩ := hrun pieces [] b hafter
  rw [List.nil_append] at hcut
  rw [hcut.cut_eq]
  have hreading := hran.reading
  have hα : 0 ≤ 1 - Real.exp (-(n / rate) / tau) := by
    rw [sub_nonneg, Real.exp_le_one_iff, neg_div, neg_nonpos]
    positivity
  have hα' : 1 - Real.exp (-(n / rate) / tau) ≤ 1 := sub_le_self _ (Real.exp_pos _).le
  refine ⟨b', hpushed, hran.frameCount, hholds.1, hreading, fun hthr => ?_, fun hne k hk lo hi hall => ?_⟩
  · have hbright := reading_bright_iff n (1 - Real.exp (-(n / rate) / tau)) hthr frames
    rwa [← hreading] at hbright
  · rw [hran.floorDb hne k hk]
    refine track_mem hα hα' (by simpa using hne) fun x hx => ?_
    obtain ⟨frame, hframe, rfl⟩ := List.mem_map.mp hx
    exact hall frame hframe

/-- The detector of `b210_rx_tx_core.c`, and two pushes of one pair. -/
theorem iqBurst_run_example : ∃ b b' : IqBurst ℝ, iqBurstNew Libm.real 512 96000 10 2 = some b ∧
    [[(1, 2)], [(3, 4)]].foldlM (iqBurstPush Libm.real) b = some b' ∧ b'.frameCount = 0 ∧ b'.accumPairs = 2 := by
  have hnew : ∃ b : IqBurst ℝ, iqBurstNew Libm.real 512 96000 10 2 = some b := by
    have hpow : isPow2 512 = true := by decide
    unfold iqBurstNew
    rw [hpow, if_neg (by norm_num), if_neg (by norm_num)]
    exact ⟨_, rfl⟩
  obtain ⟨b, hb⟩ := hnew
  obtain ⟨b', hpush, hcount, hpairs, -⟩ := iqBurst_run hb [[(1, 2)], [(3, 4)]]
  have hcut : cut 512 [[((1 : ℤ), (2 : ℤ))], [(3, 4)]].flatten = ([], [(1, 2), (3, 4)]) := by
    rw [cut, if_pos (.inr (by decide))]
    rfl
  rw [hcut] at hcount hpairs
  exact ⟨b, b', hb, hpush, hcount, hpairs⟩

end SimpleSatOps.BurstDetector
