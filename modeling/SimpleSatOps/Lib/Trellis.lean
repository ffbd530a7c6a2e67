import Mathlib.Algebra.Order.Group.Defs
import Mathlib.Tactic

/-!
# Best paths through a trellis

* `Trellis` : states, and a step forward and backward for each label;
* `score`, `endOf` : the metric of a path, and where it ends;
* `Chooser` : a choice of a greatest value;
* `step`, `forward`, `traceback` : the metrics of the states, with the labels chosen, and the path back from a state;
* `traceback_best` : the path back from a state is a best one of those that end there;
* `forward_shift` : nothing depends on what is taken from the metrics of all states at a step;
* `forward_rotate` : a symmetry of the trellis carries the paths over.
-/

namespace SimpleSatOps.Paths

variable {S B K : Type*}

/-- A state is left by a label, and entered by it. -/
structure Trellis (S B : Type*) where
  next : S → B → S
  pred : S → B → S
  next_pred : ∀ s b, next (pred s b) b = s
  pred_next : ∀ s b, pred (next s b) b = s

variable [AddCommGroup K]

/-- The metric of a path from `s`: at each step that of the state that is entered. -/
def score (T : Trellis S B) : List (S → K) → S → List B → K
  | m :: ms, s, b :: bs => m (T.next s b) + score T ms (T.next s b) bs
  | _, _, _ => 0

/-- The state a path ends at. -/
def endOf (T : Trellis S B) (s : S) (bs : List B) : S := bs.foldl T.next s

/-- A step: the metrics of the states, less `norm` of them, and the label each is entered by. -/
def step (T : Trellis S B) (choose : (B → K) → B) (norm : (S → K) → K) (pm : S → K) (m : S → K) :
    (S → K) × (S → B) :=
  let label := fun s => choose fun b => pm (T.pred s b)
  let pmn := fun s => pm (T.pred s (label s)) + m s
  (fun s => pmn s - norm pmn, label)

/-- The steps, one after the other. -/
def forward (T : Trellis S B) (choose : (B → K) → B) (norm : (S → K) → K) : (S → K) → List (S → K) →
    (S → K) × List (S → B)
  | pm, [] => (pm, [])
  | pm, m :: ms =>
    let (pm, label) := step T choose norm pm m
    let (pm, labels) := forward T choose norm pm ms
    (pm, label :: labels)

/-- The path back from a state: where it starts, and its labels. -/
def traceback (T : Trellis S B) : List (S → B) → S → S × List B
  | [], s => (s, [])
  | label :: labels, s =>
    let (s, bs) := traceback T labels s
    (T.pred s (label s), label s :: bs)

variable [LinearOrder K] [IsOrderedAddMonoid K] {T : Trellis S B} {choose : (B → K) → B} {norm : (S → K) → K}

/-- What is chosen is greatest, and a constant added to all values does not matter. -/
structure Chooser (choose : (B → K) → B) : Prop where
  le : ∀ (f : B → K) b, f b ≤ f (choose f)
  shift : ∀ (f : B → K) c, choose (fun b => f b + c) = choose f

omit [IsOrderedAddMonoid K] [LinearOrder K] in
theorem length_traceback (pm : S → K) (ms : List (S → K)) (s : S) :
    (traceback T (forward T choose norm pm ms).2 s).2.length = ms.length := by
  induction ms generalizing pm with
  | nil => rfl
  | cons m ms ih => exact congrArg (· + 1) (ih _)

/-- The path back from a state ends there, and no other path that does so has a greater metric, counted from the metrics
at the start. -/
theorem traceback_best (hc : Chooser choose) (ms : List (S → K)) : ∀ pm : S → K, ∃ c : K, ∀ s,
    let path := traceback T (forward T choose norm pm ms).2 s
    endOf T path.1 path.2 = s ∧ pm path.1 + score T ms path.1 path.2 = (forward T choose norm pm ms).1 s + c ∧
      ∀ s₀ bs, bs.length = ms.length → endOf T s₀ bs = s →
        pm s₀ + score T ms s₀ bs ≤ (forward T choose norm pm ms).1 s + c := by
  induction ms with
  | nil =>
      refine fun pm => ⟨0, fun s => ⟨rfl, rfl, ?_⟩⟩
      intro s₀ bs hlen hend
      obtain rfl := List.eq_nil_of_length_eq_zero hlen
      obtain rfl : s₀ = s := hend
      exact le_rfl
  | cons m ms ih =>
      intro pm
      obtain ⟨c, hbest⟩ := ih (step T choose norm pm m).1
      let pmn : S → K := fun s => pm (T.pred s (choose fun b => pm (T.pred s b))) + m s
      have hstep : ∀ s, (step T choose norm pm m).1 s + norm pmn = pmn s := fun s => sub_add_cancel _ _
      refine ⟨c + norm pmn, fun s => ?_⟩
      obtain ⟨hend, hscore, hmax⟩ := hbest s
      generalize hpath : traceback T (forward T choose norm (step T choose norm pm m).1 ms).2 s = path at hend hscore
      obtain ⟨s₁, bs₁⟩ := path
      have htrace : traceback T (forward T choose norm pm (m :: ms)).2 s =
          (T.pred s₁ (choose fun b => pm (T.pred s₁ b)), choose (fun b => pm (T.pred s₁ b)) :: bs₁) := by
        rw [forward]
        dsimp only
        rw [traceback, hpath]
        rfl
      rw [htrace]
      refine ⟨?_, ?_, ?_⟩
      · rw [endOf, List.foldl_cons, T.next_pred]
        exact hend
      · calc pm (T.pred s₁ (choose fun b => pm (T.pred s₁ b))) +
              score T (m :: ms) (T.pred s₁ (choose fun b => pm (T.pred s₁ b)))
                (choose (fun b => pm (T.pred s₁ b)) :: bs₁)
            = pmn s₁ + score T ms s₁ bs₁ := by rw [score, T.next_pred, ← add_assoc]
          _ = (step T choose norm pm m).1 s₁ + score T ms s₁ bs₁ + norm pmn := by rw [← hstep s₁]; abel
          _ = (forward T choose norm (step T choose norm pm m).1 ms).1 s + (c + norm pmn) := by
            rw [hscore, add_assoc]
      · intro s₀ bs hlen hend'
        obtain ⟨b, bs, rfl⟩ := List.exists_cons_of_length_eq_add_one hlen
        have hle : pm s₀ ≤ pm (T.pred (T.next s₀ b) (choose fun b' => pm (T.pred (T.next s₀ b) b'))) := by
          have h := hc.le (fun b' => pm (T.pred (T.next s₀ b) b')) b
          rwa [T.pred_next] at h
        calc pm s₀ + score T (m :: ms) s₀ (b :: bs)
            = pm s₀ + m (T.next s₀ b) + score T ms (T.next s₀ b) bs := by rw [score, ← add_assoc]
          _ ≤ pmn (T.next s₀ b) + score T ms (T.next s₀ b) bs :=
            add_le_add_left (add_le_add_left hle _) _
          _ = (step T choose norm pm m).1 (T.next s₀ b) + score T ms (T.next s₀ b) bs + norm pmn := by
            rw [← hstep]; abel
          _ ≤ (forward T choose norm (step T choose norm pm m).1 ms).1 s + c + norm pmn :=
            add_le_add_left (hmax _ bs (Nat.succ_injective hlen) hend') _
          _ = (forward T choose norm (step T choose norm pm m).1 ms).1 s + (c + norm pmn) := add_assoc _ _ _

/-! ## What does not matter -/

omit [LinearOrder K] [IsOrderedAddMonoid K] in
theorem step_fst (pm m : S → K) (s : S) : (step T choose norm pm m).1 s =
    pm (T.pred s ((step T choose norm pm m).2 s)) + m s -
      norm fun s => pm (T.pred s ((step T choose norm pm m).2 s)) + m s := rfl

omit [LinearOrder K] [IsOrderedAddMonoid K] in
theorem forward_cons (pm m : S → K) (ms : List (S → K)) : forward T choose norm pm (m :: ms) =
    ((forward T choose norm (step T choose norm pm m).1 ms).1,
      (step T choose norm pm m).2 :: (forward T choose norm (step T choose norm pm m).1 ms).2) := rfl

omit [AddCommGroup K] [LinearOrder K] [IsOrderedAddMonoid K] in
theorem traceback_cons (label : S → B) (labels : List (S → B)) (s : S) : traceback T (label :: labels) s =
    (T.pred (traceback T labels s).1 (label (traceback T labels s).1),
      label (traceback T labels s).1 :: (traceback T labels s).2) := rfl

omit [IsOrderedAddMonoid K] in
/-- What is taken from the metrics of all states at a step changes neither a label nor the order of the metrics. -/
theorem forward_shift (hc : Chooser choose) (norm norm' : (S → K) → K) (ms : List (S → K)) : ∀ (pm pm' : S → K) (c : K),
    (∀ s, pm' s = pm s + c) →
      (forward T choose norm' pm' ms).2 = (forward T choose norm pm ms).2 ∧
        ∃ c', ∀ s, (forward T choose norm' pm' ms).1 s = (forward T choose norm pm ms).1 s + c' := by
  induction ms with
  | nil => exact fun pm pm' c h => ⟨rfl, c, h⟩
  | cons m ms ih =>
      intro pm pm' c h
      have hlabel : (step T choose norm' pm' m).2 = (step T choose norm pm m).2 := by
        funext s
        have hf : (fun b => pm' (T.pred s b)) = fun b => pm (T.pred s b) + c := funext fun b => h _
        show choose (fun b => pm' (T.pred s b)) = choose fun b => pm (T.pred s b)
        rw [hf, hc.shift]
      have hstep : ∀ s, (step T choose norm' pm' m).1 s = (step T choose norm pm m).1 s +
          (c + norm (fun s => pm (T.pred s ((step T choose norm pm m).2 s)) + m s) -
            norm' fun s => pm' (T.pred s ((step T choose norm' pm' m).2 s)) + m s) := by
        intro s
        rw [step_fst, step_fst, h, hlabel]
        abel
      obtain ⟨hlabels, c', hpm⟩ := ih _ _ _ hstep
      refine ⟨?_, c', hpm⟩
      rw [forward_cons, forward_cons, hlabel, hlabels]

omit [AddCommGroup K] [LinearOrder K] [IsOrderedAddMonoid K] in
theorem pred_rotate {ρ : S → S} (hρ : ∀ s b, T.next (ρ s) b = ρ (T.next s b)) (s : S) (b : B) :
    T.pred (ρ s) b = ρ (T.pred s b) := by
  have h := T.pred_next (ρ (T.pred s b)) b
  rwa [hρ, T.next_pred] at h

omit [LinearOrder K] [IsOrderedAddMonoid K] in
/-- A symmetry of the trellis that carries the metrics over carries the paths over, with their labels. -/
theorem forward_rotate {ρ : S → S} (hρ : ∀ s b, T.next (ρ s) b = ρ (T.next s b))
    (hnorm : ∀ f f' : S → K, (∀ s, f' (ρ s) = f s) → norm f' = norm f) (ms : List ((S → K) × (S → K)))
    (hms : ∀ m ∈ ms, ∀ s, m.2 (ρ s) = m.1 s) : ∀ pm pm' : S → K, (∀ s, pm' (ρ s) = pm s) →
      ∀ s, (forward T choose norm pm' (ms.map Prod.snd)).1 (ρ s) = (forward T choose norm pm (ms.map Prod.fst)).1 s ∧
        (traceback T (forward T choose norm pm' (ms.map Prod.snd)).2 (ρ s)).1 =
          ρ (traceback T (forward T choose norm pm (ms.map Prod.fst)).2 s).1 ∧
        (traceback T (forward T choose norm pm' (ms.map Prod.snd)).2 (ρ s)).2 =
          (traceback T (forward T choose norm pm (ms.map Prod.fst)).2 s).2 := by
  induction ms with
  | nil => exact fun pm pm' h s => ⟨h s, rfl, rfl⟩
  | cons m ms ih =>
      intro pm pm' h s
      obtain ⟨hm, hms⟩ := List.forall_mem_cons.mp hms
      have hlabel : ∀ s, (step T choose norm pm' m.2).2 (ρ s) = (step T choose norm pm m.1).2 s := by
        intro s
        have hf : (fun b => pm' (T.pred (ρ s) b)) = fun b => pm (T.pred s b) := by
          funext b
          rw [pred_rotate hρ, h]
        show choose (fun b => pm' (T.pred (ρ s) b)) = choose fun b => pm (T.pred s b)
        rw [hf]
      have hpmn : ∀ s, pm' (T.pred (ρ s) ((step T choose norm pm' m.2).2 (ρ s))) + m.2 (ρ s) =
          pm (T.pred s ((step T choose norm pm m.1).2 s)) + m.1 s := by
        intro s
        rw [hlabel, pred_rotate hρ, h, hm]
      have hstep : ∀ s, (step T choose norm pm' m.2).1 (ρ s) = (step T choose norm pm m.1).1 s := by
        intro s
        rw [step_fst, step_fst, hpmn s, hnorm _ _ hpmn]
      obtain ⟨hend, hstart, hbits⟩ := ih hms _ _ hstep s
      rw [List.map_cons, List.map_cons, forward_cons, forward_cons, traceback_cons, traceback_cons]
      refine ⟨hend, ?_, ?_⟩
      · rw [hstart, hlabel, pred_rotate hρ]
      · rw [hstart, hlabel, hbits]

end SimpleSatOps.Paths
