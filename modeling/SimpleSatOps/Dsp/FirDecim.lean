import Mathlib.Data.List.GetD
import SimpleSatOps.Lib.Libm
import SimpleSatOps.Lib.Ring

/-!
# The decimator (`fir_decim.c`)

Numbers are exact; the functions of the C library are a parameter.

* `firDecimIqNew`, `firDecimIqPush` : the filter;
* `filtered`, `decimated` : the convolution, and every `M`-th sample of it;
* `Delay.push` : one call;
* `firDecim_run` : pieces and capacities of any size;
* `firDecim_constant` : a constant signal passes unchanged.
-/

namespace SimpleSatOps.FirDecim

/-- `struct fir_decim_iq`; the delay lines hold samples of 16 bits. -/
structure FirDecimIq (F : Type*) where
  M : ℕ
  ntaps : ℕ
  h : List F
  di : List ℤ
  dq : List ℤ
  head : ℕ
  phase : ℕ

section
variable {F : Type*} [Field F] [LinearOrder F]

/-- The windowed sinc before it is scaled. -/
def rawTap (L : Libm F) (n : ℕ) (fcNorm : F) (k : ℕ) : F :=
  let mid := 1 / (2 : ℕ) * ((n - 1 : ℕ) : F)
  let m := k - mid
  let s := if m = 0 then (2 : ℕ) * fcNorm else L.sin ((2 : ℕ) * L.pi * fcNorm * m) / (L.pi * m)
  let w := 54 / 100 - 46 / 100 * L.cos ((2 : ℕ) * L.pi * k / ((n - 1 : ℕ) : F))
  s * w

/-- `design_lpf`. -/
def designLpf (L : Libm F) (n : ℕ) (fcNorm : F) : List F :=
  let h := (List.range n).map (rawTap L n fcNorm)
  if h.sum ≠ 0 then h.map (· / h.sum) else h

/-- `fir_decim_iq_new`. -/
def firDecimIqNew (L : Libm F) (fsInHz fcHz : F) (ntaps M : ℕ) : Option (FirDecimIq F) :=
  if ntaps = 0 ∨ M = 0 ∨ fsInHz ≤ 0 ∨ fcHz ≤ 0 ∨ 1 / (2 : ℕ) * fsInHz ≤ fcHz then none
  else some {
    M := M
    ntaps := ntaps
    h := designLpf L ntaps (fcHz / fsInHz)
    di := List.replicate ntaps 0
    dq := List.replicate ntaps 0
    head := 0
    phase := 0 }

/-- The body of the convolution; `none` where it reads outside of an array. -/
def tapRound (f : FirDecimIq F) (s : F × F × ℕ) (j : ℕ) : Option (F × F × ℕ) :=
  (f.h[j]?).bind fun h => (f.di[s.2.2]?).bind fun (i : ℤ) => (f.dq[s.2.2]?).map fun (q : ℤ) =>
    (s.1 + h * i, s.2.1 + h * q, if s.2.2 = 0 then f.ntaps - 1 else s.2.2 - 1)

def convolve (f : FirDecimIq F) : Option (F × F × ℕ) :=
  (List.range f.ntaps).foldlM (tapRound f) (0, 0, if f.head = 0 then f.ntaps - 1 else f.head - 1)

/-- The samples go into the delay lines. -/
def FirDecimIq.delay (f : FirDecimIq F) (x : ℤ × ℤ) : FirDecimIq F :=
  { f with
    di := f.di.set f.head x.1
    dq := f.dq.set f.head x.2
    head := if f.head + 1 = f.ntaps then 0 else f.head + 1 }

variable [FloorRing F]

/-- The body of the loop of `fir_decim_iq_push`, on the filter and the pairs written. -/
def sampleRound (cap : ℕ) (s : FirDecimIq F × List (ℤ × ℤ)) (x : ℤ × ℤ) : Option (FirDecimIq F × List (ℤ × ℤ)) :=
  let f := { s.1.delay x with phase := s.1.phase + 1 }
  if f.phase ≠ f.M then some (f, s.2)
  else
    let f := { f with phase := 0 }
    if cap ≤ s.2.length then some (f, s.2)
    else (convolve f).map fun y => (f, s.2 ++ [(lrint (clampInt16 y.1), lrint (clampInt16 y.2.1))])

/-- `fir_decim_iq_push`. -/
def firDecimIqPush (cap : ℕ) (f : FirDecimIq F) (iq : List (ℤ × ℤ)) : Option (FirDecimIq F × List (ℤ × ℤ)) :=
  iq.foldlM (sampleRound cap) (f, [])

end

/-! ## The delay lines -/

variable {F : Type*}

theorem foldlM_concat {σ ι : Type*} (f : σ → ι → Option σ) (s : σ) (l : List ι) (x : ι) :
    (l ++ [x]).foldlM f s = (l.foldlM f s).bind (f · x) := by
  rw [List.foldlM_append]
  simp only [List.foldlM_cons, List.foldlM_nil, bind_pure]
  rfl

/-- The filter after the samples `xs`. -/
structure Delay (h : List F) (M : ℕ) (xs : List (ℤ × ℤ)) (f : FirDecimIq F) : Prop where
  M_eq : f.M = M
  h_eq : f.h = h
  ntaps : f.ntaps = h.length
  di : Ring.Holds h.length ⟨f.di, f.head, h.length⟩ (List.replicate h.length 0 ++ xs.map Prod.fst)
  dq : Ring.Holds h.length ⟨f.dq, f.head, h.length⟩ (List.replicate h.length 0 ++ xs.map Prod.snd)
  phase : f.phase = xs.length % M

theorem next_slot {n i : ℕ} (hi : i < n) : (if i + 1 = n then 0 else i + 1) = (i + 1) % n := by
  split_ifs with hlast
  · rw [hlast, Nat.mod_self]
  · rw [Nat.mod_eq_of_lt (by omega)]

theorem slot_before {n i : ℕ} (hn : 0 < n) : (if (i + 1) % n = 0 then n - 1 else (i + 1) % n - 1) = i % n := by
  have hlt := Nat.mod_lt i hn
  rw [← Nat.mod_add_mod i n 1, ← next_slot hlt]
  by_cases hlast : i % n + 1 = n
  · rw [if_pos hlast, if_pos rfl]
    omega
  · rw [if_neg hlast, if_neg (Nat.succ_ne_zero _), Nat.add_sub_cancel]

/-- One sample more. -/
theorem Delay.step {h : List F} {M : ℕ} {xs : List (ℤ × ℤ)} {f : FirDecimIq F} (hd : Delay h M xs f)
    (hn : 0 < h.length) (x : ℤ × ℤ) {p : ℕ} (hp : p = (xs.length + 1) % M) :
    Delay h M (xs ++ [x]) { f.delay x with phase := p } := by
  have hhead : f.head < h.length := by
    have hidx : f.head = _ := hd.di.idx_eq
    rw [hidx]
    exact Nat.mod_lt _ hn
  have hdi := hd.di.push hn x.1
  have hdq := hd.dq.push hn x.2
  unfold Ring.push at hdi hdq
  rw [if_neg (lt_irrefl _), List.append_assoc] at hdi hdq
  dsimp only at hdi hdq
  rw [← next_slot hhead, ← hd.ntaps] at hdi hdq
  refine ⟨hd.M_eq, hd.h_eq, hd.ntaps, ?_, ?_, ?_⟩
  · rw [List.map_append, List.map_singleton, ← hd.ntaps]
    exact hdi
  · rw [List.map_append, List.map_singleton, ← hd.ntaps]
    exact hdq
  · rw [List.length_append, List.length_singleton]
    exact hp

/-- What the convolution reads at its `j`-th step. -/
theorem delayed_sample {n : ℕ} {xs slots : List ℤ} {head j : ℕ}
    (hd : Ring.Holds n ⟨slots, head, n⟩ (List.replicate n 0 ++ xs)) (hxs : xs ≠ []) (hj : j < n) :
    slots[(n + (xs.length - 1) - j) % n]? = some (if j ≤ xs.length - 1 then xs.getD (xs.length - 1 - j) 0 else 0) := by
  have hpos : 0 < xs.length := List.length_pos_of_ne_nil hxs
  have hslot := hd.slot (n + (xs.length - 1) - j) (by rw [List.length_append, List.length_replicate]; omega)
    (by rw [List.length_append, List.length_replicate]; omega)
  refine hslot.trans ?_
  split_ifs with hle
  · rw [List.getElem?_append_right (by rw [List.length_replicate]; omega), List.length_replicate,
      List.getD_eq_getElem _ _ (by omega)]
    have hindex : n + (xs.length - 1) - j - n = xs.length - 1 - j := by omega
    rw [hindex]
    exact List.getElem?_eq_getElem _
  · rw [List.getElem?_append_left (by rw [List.length_replicate]; omega), List.getElem?_replicate, if_pos (by omega)]

/-! ## The convolution -/

section
variable [Field F]

/-- The sample at `k` of the filtered signal. -/
def filtered (h : List F) (xs : List ℤ) (k : ℕ) : F :=
  ∑ j ∈ Finset.range h.length, h.getD j 0 * (if j ≤ k then ((xs.getD (k - j) 0 : ℤ) : F) else 0)

/-- Later samples do not count. -/
theorem filtered_append (h : List F) (xs ys : List ℤ) {k : ℕ} (hk : k < xs.length) :
    filtered h (xs ++ ys) k = filtered h xs k := by
  refine Finset.sum_congr rfl fun j _ => ?_
  rw [List.getD_append _ _ _ _ (by omega)]

/-- The convolution at the newest sample. -/
theorem Delay.convolve {h : List F} {M : ℕ} {xs : List (ℤ × ℤ)} {f : FirDecimIq F} (hd : Delay h M xs f)
    (hn : 0 < h.length) (hxs : xs ≠ []) :
    ∃ idx, convolve f =
      some (filtered h (xs.map Prod.fst) (xs.length - 1), filtered h (xs.map Prod.snd) (xs.length - 1), idx) := by
  have hpos : 0 < xs.length := List.length_pos_of_ne_nil hxs
  have hrun : ∀ n ≤ h.length,
      (List.range n).foldlM (tapRound f) (0, 0, if f.head = 0 then f.ntaps - 1 else f.head - 1) =
        some (∑ j ∈ Finset.range n, h.getD j 0 * (if j ≤ xs.length - 1 then
          (((xs.map Prod.fst).getD (xs.length - 1 - j) 0 : ℤ) : F) else 0),
        ∑ j ∈ Finset.range n, h.getD j 0 * (if j ≤ xs.length - 1 then
          (((xs.map Prod.snd).getD (xs.length - 1 - j) 0 : ℤ) : F) else 0),
        (h.length + xs.length - 1 - n) % h.length) := by
    intro n
    induction n with
    | zero =>
        intro _
        have hidx : f.head = _ := hd.di.idx_eq
        have hstart := slot_before (i := h.length + xs.length - 1) hn
        have hlen : h.length + xs.length - 1 + 1 = h.length + xs.length := by omega
        rw [hlen] at hstart
        rw [List.length_append, List.length_replicate, List.length_map] at hidx
        rw [hd.ntaps, hidx, hstart]
        rfl
    | succ n ih =>
        intro hle
        have hi := delayed_sample hd.di (by simpa using hxs) (show n < h.length by omega)
        have hq := delayed_sample hd.dq (by simpa using hxs) (show n < h.length by omega)
        have hplace : h.length + (xs.length - 1) - n = h.length + xs.length - 1 - n := by omega
        have hnext : h.length + xs.length - 1 - n = h.length + xs.length - 1 - (n + 1) + 1 := by omega
        rw [List.length_map, hplace] at hi hq
        rw [List.range_succ, foldlM_concat, ih (by omega), Option.bind_some, tapRound, hd.h_eq,
          List.getElem?_eq_getElem (show n < h.length by omega), Finset.sum_range_succ, Finset.sum_range_succ]
        dsimp only
        rw [Option.bind_some, hi, Option.bind_some, hq, Option.map_some, hd.ntaps,
          List.getD_eq_getElem h 0 (show n < h.length by omega), hnext, slot_before hn]
        split_ifs <;> push_cast <;> rfl
  have hrange : List.range f.ntaps = List.range h.length := by rw [hd.ntaps]
  refine ⟨(h.length + xs.length - 1 - h.length) % h.length, ?_⟩
  unfold FirDecim.convolve
  rw [hrange]
  exact hrun h.length le_rfl

end

section
variable [Field F] [LinearOrder F] [FloorRing F]

/-- What is sent on for the sample at `k`. -/
def quantized (h : List F) (xs : List (ℤ × ℤ)) (k : ℕ) : ℤ × ℤ :=
  (lrint (clampInt16 (filtered h (xs.map Prod.fst) k)), lrint (clampInt16 (filtered h (xs.map Prod.snd) k)))

/-- Every `M`-th sample of the filtered signal. -/
def decimated (h : List F) (M : ℕ) (xs : List (ℤ × ℤ)) : List (ℤ × ℤ) :=
  (List.range (xs.length / M)).map fun m => quantized h xs (m * M + (M - 1))

theorem quantized_append (h : List F) (xs ys : List (ℤ × ℤ)) {k : ℕ} (hk : k < xs.length) :
    quantized h (xs ++ ys) k = quantized h xs k := by
  unfold quantized
  rw [List.map_append, List.map_append, filtered_append _ _ _ (by rwa [List.length_map]),
    filtered_append _ _ _ (by rwa [List.length_map])]

theorem decimated_before (h : List F) {M : ℕ} (hM : 0 < M) (xs ys : List (ℤ × ℤ)) :
    (List.range (xs.length / M)).map (fun m => quantized h (xs ++ ys) (m * M + (M - 1))) = decimated h M xs := by
  refine List.map_congr_left fun m hm => quantized_append _ _ _ ?_
  have hle : (m + 1) * M ≤ xs.length / M * M := Nat.mul_le_mul_right _ (List.mem_range.mp hm)
  have hdiv := Nat.div_mul_le_self xs.length M
  rw [Nat.succ_mul] at hle
  omega

theorem decimated_concat (h : List F) {M : ℕ} (hM : 0 < M) (xs : List (ℤ × ℤ)) (x : ℤ × ℤ) :
    decimated h M (xs ++ [x]) =
      decimated h M xs ++ if (xs.length + 1) % M = 0 then [quantized h (xs ++ [x]) xs.length] else [] := by
  rw [← decimated_before h hM xs [x], decimated, List.length_append, List.length_singleton, Nat.succ_div]
  by_cases hdvd : M ∣ xs.length + 1
  · have hlast : xs.length / M * M + (M - 1) = xs.length := by
      have hdiv := Nat.div_mul_cancel hdvd
      rw [Nat.succ_div, if_pos hdvd, Nat.succ_mul] at hdiv
      omega
    rw [if_pos hdvd, if_pos (Nat.mod_eq_zero_of_dvd hdvd), List.range_succ, List.map_append, List.map_singleton, hlast]
  · rw [if_neg hdvd, if_neg fun hmod => hdvd (Nat.dvd_of_mod_eq_zero hmod), List.append_nil, Nat.add_zero]

/-! ## Pieces and capacities of any size -/

theorem length_decimated (h : List F) (M : ℕ) (xs : List (ℤ × ℤ)) : (decimated h M xs).length = xs.length / M := by
  rw [decimated, List.length_map, List.length_range]

/-- The pairs that the samples `ys` behind `xs` give. -/
def emitted (h : List F) (M : ℕ) (xs ys : List (ℤ × ℤ)) : List (ℤ × ℤ) :=
  (decimated h M (xs ++ ys)).drop (xs.length / M)

theorem emitted_concat (h : List F) {M : ℕ} (hM : 0 < M) (xs ys : List (ℤ × ℤ)) (y : ℤ × ℤ) :
    emitted h M xs (ys ++ [y]) = emitted h M xs ys ++
      if ((xs ++ ys).length + 1) % M = 0 then [quantized h (xs ++ ys ++ [y]) (xs ++ ys).length] else [] := by
  have hle : xs.length / M ≤ (decimated h M (xs ++ ys)).length := by
    rw [length_decimated, List.length_append]
    exact Nat.div_le_div_right (Nat.le_add_right _ _)
  unfold emitted
  rw [← List.append_assoc, decimated_concat h hM, List.drop_append_of_le_length hle]

/-- One round of the loop. -/
theorem Delay.round {h : List F} {M : ℕ} {xs : List (ℤ × ℤ)} {f : FirDecimIq F} (hd : Delay h M xs f)
    (hn : 0 < h.length) (hM : 0 < M) (cap : ℕ) (outs : List (ℤ × ℤ)) (x : ℤ × ℤ) :
    ∃ f', sampleRound cap (f, outs) x = some (f', outs ++
        if (xs.length + 1) % M = 0 ∧ outs.length < cap then [quantized h (xs ++ [x]) xs.length] else []) ∧
      Delay h M (xs ++ [x]) f' := by
  have hnext : (if xs.length % M + 1 = M then 0 else xs.length % M + 1) = (xs.length + 1) % M := by
    rw [next_slot (Nat.mod_lt _ hM), Nat.mod_add_mod]
  have hfM : (f.delay x).M = M := hd.M_eq
  unfold sampleRound
  dsimp only
  rw [hd.phase]
  by_cases hwrap : xs.length % M + 1 = M
  · rw [if_pos hwrap] at hnext
    rw [if_neg (c := _ ≠ (f.delay x).M) (by rw [hfM]; exact not_not.mpr hwrap)]
    have hdelay := hd.step hn x hnext
    by_cases hcap : cap ≤ outs.length
    · rw [if_pos hcap, if_neg fun h => absurd h.2 hcap.not_gt, List.append_nil]
      exact ⟨_, rfl, hdelay⟩
    · obtain ⟨idx, hconv⟩ := hdelay.convolve hn (by simp)
      have hlast : (xs ++ [x]).length - 1 = xs.length := by
        rw [List.length_append, List.length_singleton, Nat.add_sub_cancel]
      rw [hlast] at hconv
      rw [if_neg hcap, if_pos ⟨hnext.symm, by omega⟩]
      refine ⟨_, ?_, hdelay⟩
      rw [hconv]
      rfl
  · rw [if_neg hwrap] at hnext
    rw [if_pos (c := _ ≠ (f.delay x).M) (by rwa [hfM]), if_neg fun h => absurd h.1 (by omega), List.append_nil]
    exact ⟨_, rfl, hd.step hn x hnext⟩

/-- **One call.** The pairs past the capacity are lost, and nothing else. -/
theorem Delay.push {h : List F} {M : ℕ} {xs : List (ℤ × ℤ)} {f : FirDecimIq F} (hd : Delay h M xs f)
    (hn : 0 < h.length) (hM : 0 < M) (cap : ℕ) (ys : List (ℤ × ℤ)) :
    ∃ f', firDecimIqPush cap f ys = some (f', (emitted h M xs ys).take cap) ∧ Delay h M (xs ++ ys) f' := by
  induction ys using List.reverseRecOn with
  | nil =>
      refine ⟨f, ?_, by rwa [List.append_nil]⟩
      have hnone : emitted h M xs [] = [] := by
        rw [emitted, List.append_nil]
        exact List.drop_of_length_le (length_decimated h M xs).le
      rw [hnone, List.take_nil]
      rfl
  | append_singleton ys y ih =>
      obtain ⟨f', hrun, hd'⟩ := ih
      obtain ⟨f'', hround, hd''⟩ := hd'.round hn hM cap ((emitted h M xs ys).take cap) y
      refine ⟨f'', ?_, by rwa [← List.append_assoc]⟩
      unfold firDecimIqPush at hrun ⊢
      rw [foldlM_concat, hrun, Option.bind_some, hround, emitted_concat h hM, List.take_append, List.length_take]
      congr 3
      by_cases hemit : ((xs ++ ys).length + 1) % M = 0
      · rw [if_pos hemit]
        by_cases hroom : (emitted h M xs ys).length < cap
        · rw [if_pos ⟨hemit, by omega⟩, List.take_of_length_le (by rw [List.length_singleton]; omega)]
        · have hfull : cap - (emitted h M xs ys).length = 0 := by omega
          rw [if_neg fun h => absurd h.2 (by omega), hfull, List.take_zero]
      · rw [if_neg hemit, if_neg fun h => absurd h.1 hemit, List.take_nil]

/-- The calls of a session, each with its pairs and its capacity. -/
def pushAll (f : FirDecimIq F) (calls : List (List (ℤ × ℤ) × ℕ)) : Option (FirDecimIq F × List (List (ℤ × ℤ))) :=
  calls.foldlM (fun s c => (firDecimIqPush c.2 s.1 c.1).map fun r => (r.1, s.2 ++ [r.2])) (f, [])

/-- What the calls return behind the samples `xs`. -/
def returned (h : List F) (M : ℕ) : List (ℤ × ℤ) → List (List (ℤ × ℤ) × ℕ) → List (List (ℤ × ℤ))
  | _, [] => []
  | xs, (ys, cap) :: calls => (emitted h M xs ys).take cap :: returned h M (xs ++ ys) calls

theorem Delay.pushAll {h : List F} {M : ℕ} (hn : 0 < h.length) (hM : 0 < M) (calls : List (List (ℤ × ℤ) × ℕ)) :
    ∀ {xs : List (ℤ × ℤ)} {f : FirDecimIq F} (outs : List (List (ℤ × ℤ))), Delay h M xs f →
      ∃ f', calls.foldlM (fun s c => (firDecimIqPush c.2 s.1 c.1).map fun r => (r.1, s.2 ++ [r.2])) (f, outs) =
        some (f', outs ++ returned h M xs calls) := by
  induction calls with
  | nil => exact fun outs _ => ⟨_, by rw [returned, List.append_nil]; rfl⟩
  | cons c calls ih =>
      obtain ⟨ys, cap⟩ := c
      intro xs f outs hd
      obtain ⟨f₁, hpush, hd₁⟩ := hd.push hn hM cap ys
      obtain ⟨f', hrest⟩ := ih (outs ++ [(emitted h M xs ys).take cap]) hd₁
      refine ⟨f', ?_⟩
      rw [List.foldlM_cons, hpush, returned, List.append_cons]
      exact hrest

theorem decimated_append (h : List F) {M : ℕ} (hM : 0 < M) (xs ys : List (ℤ × ℤ)) :
    decimated h M xs ++ emitted h M xs ys = decimated h M (xs ++ ys) := by
  have hle : xs.length / M ≤ (xs ++ ys).length / M := by
    rw [List.length_append]
    exact Nat.div_le_div_right (Nat.le_add_right _ _)
  have htake : (decimated h M (xs ++ ys)).take (xs.length / M) = decimated h M xs := by
    rw [← decimated_before h hM xs ys]
    unfold decimated
    rw [← List.map_take, List.take_range, Nat.min_eq_left hle]
  rw [← htake, emitted, List.take_append_drop]

theorem length_emitted_le (h : List F) (M : ℕ) (xs ys : List (ℤ × ℤ)) :
    (emitted h M xs ys).length ≤ ys.length / M + 1 := by
  have hsum := Nat.add_div_le_div_add_div_add_one xs.length ys.length M
  rw [emitted, List.length_drop, length_decimated, List.length_append, Nat.sub_le_iff_le_add', ← Nat.add_assoc]
  exact hsum

/-- With room for every pair, the calls return the decimated signal. -/
theorem flatten_returned (h : List F) {M : ℕ} (hM : 0 < M) (calls : List (List (ℤ × ℤ) × ℕ))
    (hroom : ∀ c ∈ calls, c.1.length / M < c.2) (xs : List (ℤ × ℤ)) :
    decimated h M xs ++ (returned h M xs calls).flatten = decimated h M (xs ++ (calls.map Prod.fst).flatten) := by
  induction calls generalizing xs with
  | nil => rw [returned, List.flatten_nil, List.map_nil, List.flatten_nil, List.append_nil, List.append_nil]
  | cons c calls ih =>
      obtain ⟨ys, cap⟩ := c
      have hcap : (emitted h M xs ys).length ≤ cap := (length_emitted_le h M xs ys).trans (hroom (ys, cap) (by simp))
      have hrest := ih (fun c hc => hroom c (by simp [hc])) (xs ++ ys)
      rw [returned, List.take_of_length_le hcap, List.flatten_cons, ← List.append_assoc, decimated_append h hM, hrest,
        List.map_cons, List.flatten_cons, List.append_assoc]

theorem returned_range [IsStrictOrderedRing F] (h : List F) (M : ℕ) (calls : List (List (ℤ × ℤ) × ℕ))
    (xs : List (ℤ × ℤ)) :
    ∀ outs ∈ returned h M xs calls, ∀ y ∈ outs, (-32768 ≤ y.1 ∧ y.1 ≤ 32767) ∧ -32768 ≤ y.2 ∧ y.2 ≤ 32767 := by
  induction calls generalizing xs with
  | nil => exact fun outs hout => absurd hout List.not_mem_nil
  | cons c calls ih =>
      intro outs hout y hy
      rw [returned] at hout
      rcases List.mem_cons.mp hout with rfl | hmem
      · obtain ⟨m, -, rfl⟩ := List.mem_map.mp (List.mem_of_mem_drop (List.mem_of_mem_take hy))
        exact ⟨lrint_clampInt16 _, lrint_clampInt16 _⟩
      · exact ih _ outs hmem y hy

omit [FloorRing F] in
theorem length_designLpf (L : Libm F) (n : ℕ) (fcNorm : F) : (designLpf L n fcNorm).length = n := by
  unfold designLpf
  dsimp only
  split_ifs <;> simp

omit [FloorRing F] in
/-- A new filter has zeros in its delay lines. -/
theorem Delay.new {L : Libm F} {fsInHz fcHz : F} {ntaps M : ℕ} {f : FirDecimIq F}
    (h : firDecimIqNew L fsInHz fcHz ntaps M = some f) :
    0 < f.h.length ∧ 0 < M ∧ f.h = designLpf L ntaps (fcHz / fsInHz) ∧ Delay f.h M [] f := by
  unfold firDecimIqNew at h
  split at h
  · exact nomatch h
  next hbad =>
    push Not at hbad
    obtain ⟨hn, hM, -⟩ := hbad
    obtain rfl := Option.some.inj h
    have hlen : (designLpf L ntaps (fcHz / fsInHz)).length = ntaps := length_designLpf L ntaps _
    have hzero : Ring.Holds ntaps ⟨List.replicate ntaps (0 : ℤ), 0, ntaps⟩ (List.replicate ntaps 0) := by
      refine ⟨List.length_replicate, ?_, ?_, fun i hi _ => ?_⟩
      · rw [List.length_replicate, Nat.mod_self]
      · rw [List.length_replicate, Nat.min_self]
      · rw [List.length_replicate] at hi
        rw [Nat.mod_eq_of_lt hi]
    dsimp only
    rw [← hlen] at hzero
    refine ⟨by omega, by omega, rfl, rfl, rfl, hlen.symm, ?_, ?_, (Nat.zero_mod _).symm⟩
    · rw [List.map_nil, List.append_nil]
      dsimp only
      rwa [hlen] at hzero ⊢
    · rw [List.map_nil, List.append_nil]
      dsimp only
      rwa [hlen] at hzero ⊢

/-- **The decimator.** Pieces of any size with any capacities give the decimated signal, less the pairs for which a call
has no room, in 16 bits; no call reads outside of the delay lines. -/
theorem firDecim_run [IsStrictOrderedRing F] {L : Libm F} {fsInHz fcHz : F} {n M : ℕ} {f : FirDecimIq F}
    (hnew : firDecimIqNew L fsInHz fcHz (n + 2) M = some f) (calls : List (List (ℤ × ℤ) × ℕ)) :
    ∃ f' outs, pushAll f calls = some (f', outs) ∧
      outs = returned (designLpf L (n + 2) (fcHz / fsInHz)) M [] calls ∧
      ((∀ c ∈ calls, c.1.length / M < c.2) →
        outs.flatten = decimated (designLpf L (n + 2) (fcHz / fsInHz)) M (calls.map Prod.fst).flatten) ∧
      ∀ pairs ∈ outs, ∀ y ∈ pairs, (-32768 ≤ y.1 ∧ y.1 ≤ 32767) ∧ -32768 ≤ y.2 ∧ y.2 ≤ 32767 := by
  obtain ⟨hn, hM, hh, hd⟩ := Delay.new hnew
  obtain ⟨f', hrun⟩ := Delay.pushAll hn hM calls [] hd
  rw [List.nil_append, hh] at hrun
  refine ⟨f', _, hrun, rfl, fun hroom => ?_, returned_range _ M calls []⟩
  have hflat := flatten_returned (designLpf L (n + 2) (fcHz / fsInHz)) hM calls hroom []
  rwa [decimated, List.length_nil, Nat.zero_div, List.range_zero, List.map_nil, List.nil_append,
    List.nil_append] at hflat

/-- The decimator of a stream at 240 kHz, and two calls of which the second one has no room. -/
theorem firDecim_run_example : ∃ f f' : FirDecimIq ℚ, ∃ outs,
    firDecimIqNew ⟨3, id, id, id, id⟩ 240000 20000 (1 + 2) 2 = some f ∧
    pushAll f [([(4, 0), (4, 0), (4, 0), (4, 0)], 9), ([(4, 0), (4, 0)], 0)] = some (f', outs) ∧ outs.length = 2 := by
  have hnew : ∃ f : FirDecimIq ℚ, firDecimIqNew ⟨3, id, id, id, id⟩ 240000 20000 (1 + 2) 2 = some f := by
    unfold firDecimIqNew
    rw [if_neg (by norm_num)]
    exact ⟨_, rfl⟩
  obtain ⟨f, hf⟩ := hnew
  obtain ⟨f', outs, hrun, houts, -⟩ := firDecim_run hf [([(4, 0), (4, 0), (4, 0), (4, 0)], 9), ([(4, 0), (4, 0)], 0)]
  exact ⟨f, f', outs, hf, hrun, by rw [houts]; rfl⟩

end

/-! ## A constant signal -/

section
variable {F : Type*} [Field F] [LinearOrder F] [FloorRing F] [IsStrictOrderedRing F]

omit [FloorRing F] [IsStrictOrderedRing F] in
/-- The taps add up to one. -/
theorem sum_designLpf (L : Libm F) (n : ℕ) (fcNorm : F) (h : ((List.range n).map (rawTap L n fcNorm)).sum ≠ 0) :
    (designLpf L n fcNorm).sum = 1 := by
  unfold designLpf
  dsimp only
  rw [if_pos h]
  simp only [div_eq_mul_inv, List.sum_map_mul_right, List.map_id']
  exact mul_inv_cancel₀ h

/-- **A constant signal** passes unchanged once it has filled the delay line. -/
theorem quantized_constant (L : Libm F) {n : ℕ} {fcNorm : F} (h : ((List.range n).map (rawTap L n fcNorm)).sum ≠ 0)
    {xs : List (ℤ × ℤ)} {k : ℕ} {c : ℤ × ℤ} (hk : n ≤ k + 1) (hall : ∀ j < n, xs[k - j]? = some c)
    (hi : -32768 ≤ c.1 ∧ c.1 ≤ 32767) (hq : -32768 ≤ c.2 ∧ c.2 ≤ 32767) :
    quantized (designLpf L n fcNorm) xs k = c := by
  have hconst : ∀ proj : ℤ × ℤ → ℤ, filtered (designLpf L n fcNorm) (xs.map proj) k = proj c := by
    intro proj
    have hsum : ∑ j ∈ Finset.range (designLpf L n fcNorm).length, (designLpf L n fcNorm).getD j 0 = 1 := by
      rw [← sum_designLpf L n fcNorm h, Finset.sum_range, ← Fin.sum_univ_getElem]
      exact Finset.sum_congr rfl fun j _ => List.getD_eq_getElem _ _ j.isLt
    have hsample : ∀ j ∈ Finset.range (designLpf L n fcNorm).length, (designLpf L n fcNorm).getD j 0 *
        (if j ≤ k then (((xs.map proj).getD (k - j) 0 : ℤ) : F) else 0) = (designLpf L n fcNorm).getD j 0 * proj c := by
      intro j hj
      rw [Finset.mem_range, length_designLpf] at hj
      have hvalue : (xs.map proj).getD (k - j) 0 = proj c := by
        rw [List.getD_eq_getElem?_getD, List.getElem?_map, hall j hj]
        rfl
      rw [if_pos (by omega), hvalue]
    rw [filtered, Finset.sum_congr rfl hsample, ← Finset.sum_mul, hsum, one_mul]
  unfold quantized
  rw [hconst, hconst, clampInt16_intCast hi.1 hi.2, clampInt16_intCast hq.1 hq.2, lrint_intCast, lrint_intCast]

end

end SimpleSatOps.FirDecim
