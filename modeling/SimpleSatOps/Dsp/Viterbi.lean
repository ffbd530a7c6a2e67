import Mathlib.Tactic
import SimpleSatOps.Lib.Trellis

/-!
# The Viterbi demodulator (`modem_viterbi.c`)

* `bm`, `acs`, `runningMin`, `recursion`, `sEnd`, `traceback`, `bitsRaw` : the recursion over the four phases;
* `phases`, `metric` : the paths it searches;
* `recursion_eq`, `traceback_eq` : the recursion is the search of the trellis of phases;
* `bestEnd_iff` : the best end states are those with the greatest metric;
* `bitsRaw_renorm`, `bitsRaw_best`, `bitsRaw_turn` : the renormalisation, the best path, a quarter turn;
* `viterbi_maximum_likelihood` : the bits are those of a best path.

Numbers are exact. The symbols are those after the phase correction.
-/

namespace SimpleSatOps.Viterbi
open Paths

/-! ## The source -/

/-- The branch metrics of a symbol: `bm` -/
def bm (y : ℚ × ℚ) : Fin 4 → ℚ := ![y.1, y.2, -y.1, -y.2]

/-- Which of the two predecessors of a state is taken: `pmn[s]`, with `bt_pred` and `bt_bit`. -/
def acs (pm : Fin 4 → ℚ) (y : ℚ × ℚ) (s : Fin 4) : ℚ × Fin 4 × Bool :=
  let pa := s + 3
  let pb := s + 1
  if pm pa ≥ pm pb then (pm pa + bm y s, pa, true) else (pm pb + bm y s, pb, false)

/-- `mn` -/
def runningMin (pmn : Fin 4 → ℚ) : ℚ :=
  [1, 2, 3].foldl (fun mn s => if pmn s < mn then pmn s else mn) (pmn 0)

/-- The path metrics after the symbols, and the back pointers; `renorm` is what a step takes off. -/
def recursion (renorm : (Fin 4 → ℚ) → ℚ) : (Fin 4 → ℚ) → List (ℚ × ℚ) → (Fin 4 → ℚ) × List (Fin 4 → Fin 4 × Bool)
  | pm, [] => (pm, [])
  | pm, y :: ys =>
    let pmn := fun s => (acs pm y s).1
    let mn := renorm pmn
    let (pm', bt) := recursion renorm (fun s => pmn s - mn) ys
    (pm', (fun s => (acs pm y s).2) :: bt)

/-- `s_end` -/
def sEnd (pm : Fin 4 → ℚ) : Fin 4 :=
  [1, 2, 3].foldl (fun e s => if pm s > pm e then s else e) 0

/-- The traceback: from the last symbol to the first. -/
def traceback (bt : List (Fin 4 → Fin 4 × Bool)) (s : Fin 4) : Fin 4 × List Bool :=
  bt.foldr (fun row (s, bits) => ((row s).1, (row s).2 :: bits)) (s, [])

/-- `bits_raw` -/
def bitsRaw (renorm : (Fin 4 → ℚ) → ℚ) (ys : List (ℚ × ℚ)) : List Bool :=
  let (pm, bt) := recursion renorm (fun _ => 0) ys
  (traceback bt (sEnd pm)).2

/-! ## The paths -/

/-- A bit 1 turns the phase a quarter forward, a bit 0 a quarter back. -/
def phases : Trellis (Fin 4) Bool where
  next s b := if b then s + 1 else s - 1
  pred s b := if b then s + 3 else s + 1
  next_pred := by decide
  pred_next := by decide

/-- The total branch metric of the path from `s` with the steps `bits`. -/
def metric (ys : List (ℚ × ℚ)) (s : Fin 4) (bits : List Bool) : ℚ := score phases (ys.map bm) s bits

/-- A state some best path ends at. -/
def BestEnd (ys : List (ℚ × ℚ)) (s : Fin 4) : Prop :=
  ∃ s₀ bits, bits.length = ys.length ∧ endOf phases s₀ bits = s ∧
    ∀ s₀' bits', bits'.length = ys.length → metric ys s₀' bits' ≤ metric ys s₀ bits

/-- A symbol turned by 90 degrees. -/
def quarterTurn (y : ℚ × ℚ) : ℚ × ℚ := (-y.2, y.1)

/-- The greater of two predecessors, the first where they are equal. -/
def choose (f : Bool → ℚ) : Bool := decide (f true ≥ f false)

theorem chooser : Chooser choose where
  le f b := by
    by_cases h : f true ≥ f false
    · rw [choose, decide_eq_true h]
      cases b with
      | false => exact h
      | true => exact le_rfl
    · rw [choose, decide_eq_false h]
      cases b with
      | false => exact le_rfl
      | true => exact (not_le.mp h).le
  shift f c := by
    rw [choose, choose, decide_eq_decide]
    exact add_le_add_iff_right c

theorem acs_eq (pm : Fin 4 → ℚ) (y : ℚ × ℚ) (s : Fin 4) : acs pm y s =
    let b := choose fun b => pm (phases.pred s b)
    (pm (phases.pred s b) + bm y s, phases.pred s b, b) := by
  by_cases h : pm (s + 3) ≥ pm (s + 1)
  · have hb : (choose fun b => pm (phases.pred s b)) = true := decide_eq_true h
    rw [hb, acs, if_pos h]
    rfl
  · have hb : (choose fun b => pm (phases.pred s b)) = false := decide_eq_false h
    rw [hb, acs, if_neg h]
    rfl

/-- The back pointers of a step, from the bits that enter the states. -/
def pointers (label : Fin 4 → Bool) (s : Fin 4) : Fin 4 × Bool := (phases.pred s (label s), label s)

theorem recursion_eq (renorm : (Fin 4 → ℚ) → ℚ) (pm : Fin 4 → ℚ) (ys : List (ℚ × ℚ)) :
    recursion renorm pm ys = ((forward phases choose renorm pm (ys.map bm)).1,
      (forward phases choose renorm pm (ys.map bm)).2.map pointers) := by
  induction ys generalizing pm with
  | nil => rfl
  | cons y ys ih =>
      rw [recursion, ih, List.map_cons, forward_cons]
      simp only [acs_eq]
      rfl

theorem traceback_eq (labels : List (Fin 4 → Bool)) (s : Fin 4) :
    traceback (labels.map pointers) s = Paths.traceback phases labels s := by
  induction labels with
  | nil => rfl
  | cons label labels ih =>
      rw [traceback_cons, ← ih]
      rfl

/-- The search of the trellis, from equal metrics. -/
def search (renorm : (Fin 4 → ℚ) → ℚ) (ys : List (ℚ × ℚ)) : (Fin 4 → ℚ) × List (Fin 4 → Bool) :=
  forward phases choose renorm (fun _ => 0) (ys.map bm)

/-- The path the search finds to a state. -/
def pathTo (renorm : (Fin 4 → ℚ) → ℚ) (ys : List (ℚ × ℚ)) (s : Fin 4) : Fin 4 × List Bool :=
  Paths.traceback phases (search renorm ys).2 s

theorem bitsRaw_eq (renorm : (Fin 4 → ℚ) → ℚ) (ys : List (ℚ × ℚ)) :
    bitsRaw renorm ys = (pathTo renorm ys (sEnd (search renorm ys).1)).2 := by
  rw [bitsRaw, recursion_eq, pathTo, ← traceback_eq]
  rfl

theorem length_pathTo (renorm : (Fin 4 → ℚ) → ℚ) (ys : List (ℚ × ℚ)) (s : Fin 4) :
    (pathTo renorm ys s).2.length = ys.length :=
  (length_traceback _ _ s).trans (List.length_map _)

/-- The path found to a state is a best one to it, and the metrics of the states are those of the paths, up to what was
taken off. -/
theorem pathTo_best (renorm : (Fin 4 → ℚ) → ℚ) (ys : List (ℚ × ℚ)) : ∃ c, ∀ s,
    endOf phases (pathTo renorm ys s).1 (pathTo renorm ys s).2 = s ∧
      metric ys (pathTo renorm ys s).1 (pathTo renorm ys s).2 = (search renorm ys).1 s + c ∧
      ∀ s₀ bits, bits.length = ys.length → endOf phases s₀ bits = s →
        metric ys s₀ bits ≤ (search renorm ys).1 s + c := by
  obtain ⟨c, hbest⟩ := traceback_best chooser (ys.map bm) fun _ => 0
  refine ⟨c, fun s => ?_⟩
  obtain ⟨hend, hscore, hmax⟩ := hbest s
  rw [zero_add] at hscore
  refine ⟨hend, hscore, fun s₀ bits hlen hs => ?_⟩
  have hle := hmax s₀ bits (hlen.trans (List.length_map _).symm) hs
  rwa [zero_add] at hle

/-! ## The end state -/

theorem le_sEnd (pm : Fin 4 → ℚ) (s : Fin 4) : pm s ≤ pm (sEnd pm) := by
  -- the fold keeps the greatest of what it has seen
  have hfold : ∀ (l : List (Fin 4)) (e : Fin 4),
      pm e ≤ pm (l.foldl (fun e s => if pm s > pm e then s else e) e) ∧
        ∀ s ∈ l, pm s ≤ pm (l.foldl (fun e s => if pm s > pm e then s else e) e) := by
    intro l
    induction l with
    | nil => exact fun e => ⟨le_rfl, fun s hs => absurd hs List.not_mem_nil⟩
    | cons a l ih =>
        intro e
        obtain ⟨hle, hmem⟩ := ih (if pm a > pm e then a else e)
        rw [List.foldl_cons]
        have hboth : pm e ≤ pm (if pm a > pm e then a else e) ∧ pm a ≤ pm (if pm a > pm e then a else e) := by
          split
          · next h => exact ⟨h.le, le_rfl⟩
          · next h => exact ⟨le_rfl, not_lt.mp h⟩
        refine ⟨hboth.1.trans hle, fun s hs => ?_⟩
        rcases List.mem_cons.mp hs with rfl | hs
        · exact hboth.2.trans hle
        · exact hmem s hs
  obtain ⟨hzero, hrest⟩ := hfold [1, 2, 3] 0
  fin_cases s
  · exact hzero
  · exact hrest 1 (by decide)
  · exact hrest 2 (by decide)
  · exact hrest 3 (by decide)

theorem sEnd_shift (pm pm' : Fin 4 → ℚ) (c : ℚ) (h : ∀ s, pm' s = pm s + c) : sEnd pm' = sEnd pm := by
  simp only [sEnd, h, gt_iff_lt, add_lt_add_iff_right]

/-- A state is the end of a best path when its metric is greatest. -/
theorem bestEnd_iff (renorm : (Fin 4 → ℚ) → ℚ) (ys : List (ℚ × ℚ)) (s : Fin 4) :
    BestEnd ys s ↔ ∀ s', (search renorm ys).1 s' ≤ (search renorm ys).1 s := by
  obtain ⟨c, hbest⟩ := pathTo_best renorm ys
  constructor
  · rintro ⟨s₀, bits, hlen, hend, hmax⟩ s'
    have hle := hmax (pathTo renorm ys s').1 (pathTo renorm ys s').2 (length_pathTo renorm ys s')
    rw [(hbest s').2.1] at hle
    exact le_of_add_le_add_right (hle.trans ((hbest s).2.2 s₀ bits hlen hend))
  · intro h
    refine ⟨_, _, length_pathTo renorm ys s, (hbest s).1, fun s₀ bits hlen => ?_⟩
    rw [(hbest s).2.1]
    exact ((hbest _).2.2 s₀ bits hlen rfl).trans (add_le_add_left (h _) c)

theorem bestEnd_sEnd (renorm : (Fin 4 → ℚ) → ℚ) (ys : List (ℚ × ℚ)) : BestEnd ys (sEnd (search renorm ys).1) :=
  (bestEnd_iff renorm ys _).mpr (le_sEnd _)

/-! ## The bits -/

/-- What is taken off at a step never changes the bits. -/
theorem bitsRaw_renorm (renorm renorm' : (Fin 4 → ℚ) → ℚ) (ys : List (ℚ × ℚ)) :
    bitsRaw renorm' ys = bitsRaw renorm ys := by
  obtain ⟨hlabels, c, hpm⟩ := forward_shift chooser renorm renorm' (ys.map bm) (fun _ => 0) (fun _ => 0) 0
    fun _ => (add_zero _).symm
  have hsearch : (search renorm' ys).2 = (search renorm ys).2 := hlabels
  have hend : sEnd (search renorm' ys).1 = sEnd (search renorm ys).1 := sEnd_shift _ _ c hpm
  rw [bitsRaw_eq, bitsRaw_eq, pathTo, pathTo, hsearch, hend]

theorem length_bitsRaw (renorm : (Fin 4 → ℚ) → ℚ) (ys : List (ℚ × ℚ)) : (bitsRaw renorm ys).length = ys.length := by
  rw [bitsRaw_eq]
  exact length_pathTo renorm ys _

/-- The bits are the steps of a path no other one is better than. -/
theorem bitsRaw_best (renorm : (Fin 4 → ℚ) → ℚ) (ys : List (ℚ × ℚ)) : ∃ s₀, ∀ s₀' bits', bits'.length = ys.length →
    metric ys s₀' bits' ≤ metric ys s₀ (bitsRaw renorm ys) := by
  obtain ⟨c, hbest⟩ := pathTo_best renorm ys
  rw [bitsRaw_eq]
  refine ⟨(pathTo renorm ys (sEnd (search renorm ys).1)).1, fun s₀' bits' hlen => ?_⟩
  calc metric ys s₀' bits'
      ≤ (search renorm ys).1 (endOf phases s₀' bits') + c := (hbest _).2.2 s₀' bits' hlen rfl
    _ ≤ (search renorm ys).1 (sEnd (search renorm ys).1) + c := add_le_add_left (le_sEnd _ _) c
    _ = _ := (hbest _).2.1.symm

/-! ## A quarter turn -/

theorem next_turn (k s : Fin 4) (b : Bool) : phases.next (s + k) b = phases.next s b + k := by
  revert k s b
  decide

theorem bm_turn (k : ℕ) (y : ℚ × ℚ) (s : Fin 4) : bm (quarterTurn^[k] y) (s + Fin.ofNat 4 k) = bm y s := by
  have hone : ∀ (y : ℚ × ℚ) (s : Fin 4), bm (quarterTurn y) (s + 1) = bm y s := by
    intro y s
    fin_cases s
    · rfl
    · exact neg_neg y.2
    · rfl
    · rfl
  induction k with
  | zero => exact congrArg (bm y) (add_zero s)
  | succ k ih =>
      have hsucc : Fin.ofNat 4 (k + 1) = Fin.ofNat 4 k + 1 := Fin.ext (Nat.add_mod k 1 4)
      rw [hsucc, ← add_assoc, Function.iterate_succ_apply', hone, ih]

theorem runningMin_turn (k : Fin 4) (f f' : Fin 4 → ℚ) (h : ∀ s, f' (s + k) = f s) : runningMin f' = runningMin f := by
  have hmin : ∀ f : Fin 4 → ℚ, runningMin f = min (f 3) (min (f 2) (min (f 1) (f 0))) := by
    intro f
    simp only [runningMin, List.foldl_cons, List.foldl_nil, min_def_lt]
  have h0 := h 0
  have h1 := h 1
  have h2 := h 2
  have h3 := h 3
  rw [hmin, hmin]
  fin_cases k
  · rw [← h0, ← h1, ← h2, ← h3]
    rfl
  · rw [← h0, ← h1, ← h2, ← h3]
    show min (f' 3) (min (f' 2) (min (f' 1) (f' 0))) = min (f' 0) (min (f' 3) (min (f' 2) (f' 1)))
    ac_rfl
  · rw [← h0, ← h1, ← h2, ← h3]
    show min (f' 3) (min (f' 2) (min (f' 1) (f' 0))) = min (f' 1) (min (f' 0) (min (f' 3) (f' 2)))
    ac_rfl
  · rw [← h0, ← h1, ← h2, ← h3]
    show min (f' 3) (min (f' 2) (min (f' 1) (f' 0))) = min (f' 2) (min (f' 1) (min (f' 0) (f' 3)))
    ac_rfl

/-- Turned symbols have the same paths to the turned states. -/
theorem pathTo_turn (k : ℕ) (ys : List (ℚ × ℚ)) (s : Fin 4) :
    (search runningMin (ys.map quarterTurn^[k])).1 (s + Fin.ofNat 4 k) = (search runningMin ys).1 s ∧
      (pathTo runningMin (ys.map quarterTurn^[k]) (s + Fin.ofNat 4 k)).2 = (pathTo runningMin ys s).2 := by
  have hms : ∀ m ∈ ys.map fun y => (bm y, bm (quarterTurn^[k] y)), ∀ s, m.2 (s + Fin.ofNat 4 k) = m.1 s := by
    intro m hm
    obtain ⟨y, -, rfl⟩ := List.mem_map.mp hm
    exact bm_turn k y
  obtain ⟨hpm, -, hbits⟩ := forward_rotate
    (fun s b => next_turn (Fin.ofNat 4 k) s b) (runningMin_turn (Fin.ofNat 4 k)) _ hms
    (fun _ => 0) (fun _ => 0) (fun _ => rfl) s
  rw [List.map_map, List.map_map] at hpm hbits
  rw [pathTo, pathTo, search, search, List.map_map]
  exact ⟨hpm, hbits⟩

/-- Turned symbols give the same bits when there is one best end state. -/
theorem bitsRaw_turn (k : ℕ) (ys : List (ℚ × ℚ)) (h : ∃! s, BestEnd ys s) :
    bitsRaw runningMin (ys.map quarterTurn^[k]) = bitsRaw runningMin ys := by
  have hend : sEnd (search runningMin (ys.map quarterTurn^[k])).1 = sEnd (search runningMin ys).1 + Fin.ofNat 4 k := by
    have hbest : BestEnd ys (sEnd (search runningMin (ys.map quarterTurn^[k])).1 - Fin.ofNat 4 k) := by
      rw [bestEnd_iff runningMin]
      intro s
      rw [← (pathTo_turn k ys s).1, ← (pathTo_turn k ys _).1, sub_add_cancel]
      exact le_sEnd _ _
    rw [h.unique (bestEnd_sEnd runningMin ys) hbest, sub_add_cancel]
  rw [bitsRaw_eq, bitsRaw_eq, hend, (pathTo_turn k ys _).2]

/-- **Whatever is taken off at each step, the bits are the steps of a path from some phase that no path is better than.
Turning all symbols by quarters does not change them, if the best paths all end at one phase.** -/
theorem viterbi_maximum_likelihood (ys : List (ℚ × ℚ)) :
    ((bitsRaw runningMin ys).length = ys.length ∧ ∃ s₀, ∀ s₀' bits', bits'.length = ys.length →
      metric ys s₀' bits' ≤ metric ys s₀ (bitsRaw runningMin ys)) ∧
    (∀ renorm, bitsRaw renorm ys = bitsRaw runningMin ys) ∧
    ((∃! s, BestEnd ys s) → ∀ k, bitsRaw runningMin (ys.map quarterTurn^[k]) = bitsRaw runningMin ys) :=
  ⟨⟨length_bitsRaw runningMin ys, bitsRaw_best runningMin ys⟩, fun renorm => bitsRaw_renorm runningMin renorm ys,
    fun h k => bitsRaw_turn k ys h⟩

theorem viterbi_maximum_likelihood_two :
    bitsRaw runningMin ([(1, 0), (0, 1)].map quarterTurn^[3]) = bitsRaw runningMin [(1, 0), (0, 1)] := by
  refine (viterbi_maximum_likelihood [(1, 0), (0, 1)]).2.2 ⟨1, ?_, ?_⟩ 3
  · exact (bestEnd_iff runningMin _ 1).mpr (by decide +kernel)
  · have hone : ∀ s, (∀ s', (search runningMin [(1, 0), (0, 1)]).1 s' ≤ (search runningMin [(1, 0), (0, 1)]).1 s) →
        s = 1 := by decide +kernel
    exact fun s hs => hone s ((bestEnd_iff runningMin _ s).mp hs)

end SimpleSatOps.Viterbi
