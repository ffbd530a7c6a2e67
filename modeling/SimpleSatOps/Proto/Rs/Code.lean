import SimpleSatOps.Proto.Rs
import SimpleSatOps.Lib.Locator
import SimpleSatOps.Lib.Hamming

/-!
# The code of `rs.c`: syndromes, encoder, codewords

* `evalWord` : a block as a polynomial, first byte highest, at a point;
* `mk_rsSyndromes` : syndrome `i` is the block at `beta i`;
* `isCodeword_rsEncode` : encoded blocks have zero syndromes;
* `isCodeword_iff_parity` : a codeword is its first 223 bytes with their parity;
* `synPoly_eq_powerSums` : near a codeword the syndromes are the power sums of the error locators.
-/

namespace SimpleSatOps.Rs
open Polynomial GF256

/-- A word as a polynomial at `x`, by Horner's rule. -/
def evalWord (l : List UInt8) (x : GF256) : GF256 := l.foldl (fun acc byte => acc * x + ⟨byte⟩) 0

/-- The roots of the generator polynomial. -/
def beta (i : ℕ) : GF256 := alpha ^ ((fcr + i) * prim)

/-- The locator of block position `j`. -/
def posLoc (j : ℕ) : GF256 := alpha ^ (prim * (nn - 1 - j))

theorem beta_inj {i j : ℕ} (hi : i < nroots) (hj : j < nroots) (h : beta i = beta j) : i = j := by
  rw [beta, beta, alpha_pow_eq_iff] at h
  simp only [nn, fcr, prim, nroots] at *
  omega

theorem posLoc_ne_zero (j : ℕ) : posLoc j ≠ 0 := pow_ne_zero _ alpha_ne_zero

theorem posLoc_inj {i j : ℕ} (hi : i < nn) (hj : j < nn) (h : posLoc i = posLoc j) : i = j := by
  rw [posLoc, posLoc, alpha_pow_eq_iff] at h
  simp only [nn, prim] at *
  omega

/-! ## Words as polynomials -/

theorem foldl_horner (l : List UInt8) (x acc : GF256) :
    l.foldl (fun acc byte => acc * x + ⟨byte⟩) acc = acc * x ^ l.length + evalWord l x := by
  induction l generalizing acc with
  | nil => simp [evalWord]
  | cons byte l ih =>
    rw [evalWord, List.foldl_cons, List.foldl_cons, ih, ih (0 * x + ⟨byte⟩), List.length_cons]
    ring

theorem evalWord_append (l m : List UInt8) (x : GF256) :
    evalWord (l ++ m) x = evalWord l x * x ^ m.length + evalWord m x := by
  rw [evalWord, List.foldl_append, foldl_horner]
  rfl

theorem evalWord_cons (byte : UInt8) (l : List UInt8) (x : GF256) :
    evalWord (byte :: l) x = ⟨byte⟩ * x ^ l.length + evalWord l x := by
  rw [evalWord, List.foldl_cons, foldl_horner, zero_mul, zero_add]

@[simp] theorem evalWord_nil (x : GF256) : evalWord [] x = 0 := rfl

theorem evalWord_concat (l : List UInt8) (byte : UInt8) (x : GF256) :
    evalWord (l ++ [byte]) x = evalWord l x * x + ⟨byte⟩ := by
  rw [evalWord_append, evalWord_cons]
  simp

theorem evalWord_replicate_zero (n : ℕ) (x : GF256) : evalWord (List.replicate n 0) x = 0 := by
  induction n with
  | zero => rfl
  | succ n ih => rw [List.replicate_succ, evalWord_cons, ih, mk_zero, zero_mul, add_zero]

theorem evalWord_eq_sum (l : List UInt8) (x : GF256) :
    evalWord l x = ∑ j ∈ Finset.range l.length, ⟨l.getD j 0⟩ * x ^ (l.length - 1 - j) := by
  induction l with
  | nil => rfl
  | cons byte l ih =>
    rw [evalWord_cons, ih, List.length_cons, Finset.sum_range_succ', add_comm]
    congr 1
    refine Finset.sum_congr rfl fun j _ => ?_
    rw [List.getD_cons_succ, show l.length + 1 - 1 - (j + 1) = l.length - 1 - j by omega]

/-- Two words of one length differ, as polynomials, by their differences. -/
theorem evalWord_sub (l m : List UInt8) (h : l.length = m.length) (x : GF256) :
    evalWord l x - evalWord m x =
      ∑ j ∈ diffs l m, (⟨l.getD j 0⟩ - ⟨m.getD j 0⟩) * x ^ (l.length - 1 - j) := by
  rw [evalWord_eq_sum, evalWord_eq_sum, ← h, ← Finset.sum_sub_distrib]
  simp only [← sub_mul]
  refine (Finset.sum_subset (fun j hj => Finset.mem_range.mpr (lt_of_mem_diffs hj)) fun j _ hj => ?_).symm
  have heq : l.getD j 0 = m.getD j 0 := not_not.mp fun hne => hj ((mem_diffs_iff_getD h 0).mpr hne)
  rw [heq, sub_self, zero_mul]

/-! ## Syndromes -/

theorem mk_syndromeStep (byte : UInt8) (i : ℕ) (s : UInt8) :
    (⟨syndromeStep byte i s⟩ : GF256) = ⟨s⟩ * beta i + ⟨byte⟩ := by
  unfold syndromeStep
  split_ifs with hs
  · rw [hs, mk_zero, zero_mul, zero_add]
  · rw [mk_xor, mk_alphaTo_modnn, pow_add, ← ofIdx_of_lt (indexOf_lt hs), ofIdx_indexOf, add_comm]
    rfl

theorem mk_foldl_syndromeStep (l : List UInt8) {i : ℕ} : ∀ {syn : List UInt8}, i < syn.length →
    (⟨(l.foldl (fun syn byte => syn.mapIdx (syndromeStep byte)) syn).getD i 0⟩ : GF256) =
      ⟨syn.getD i 0⟩ * beta i ^ l.length + evalWord l (beta i) := by
  induction l with
  | nil => simp
  | cons byte l ih =>
    intro syn hi
    have hget : (syn.mapIdx (syndromeStep byte)).getD i 0 = syndromeStep byte i (syn.getD i 0) := by
      simp [List.getD_eq_getElem?_getD, hi]
    rw [List.foldl_cons, ih (by simpa using hi), hget, mk_syndromeStep, evalWord_cons, List.length_cons]
    ring

theorem length_rsSyndromes (block : List UInt8) : (rsSyndromes block).length = nroots := by
  unfold rsSyndromes
  generalize block.tail = l
  have hinit : (List.replicate nroots (block.headD 0)).length = nroots := List.length_replicate
  revert hinit
  generalize List.replicate nroots (block.headD 0) = syn
  intro hsyn
  induction l generalizing syn with
  | nil => exact hsyn
  | cons byte l ih => exact ih _ (by simpa using hsyn)

/-- Syndrome `i` is the block evaluated at `beta i`. -/
theorem mk_rsSyndromes (block : List UInt8) {i : ℕ} (hi : i < nroots) :
    (⟨(rsSyndromes block).getD i 0⟩ : GF256) = evalWord block (beta i) := by
  rw [rsSyndromes, mk_foldl_syndromeStep _ (by simpa using hi)]
  cases block with
  | nil => simp [List.getD_eq_getElem?_getD, hi]
  | cons byte l =>
    rw [evalWord_cons]
    simp [List.getD_eq_getElem?_getD, hi]

/-- All 32 syndromes of the block are zero. -/
def IsCodeword (block : List UInt8) : Prop := (rsSyndromes block).all (· = 0) = true

theorem isCodeword_iff_evalWord (block : List UInt8) :
    IsCodeword block ↔ ∀ i < nroots, evalWord block (beta i) = 0 := by
  unfold IsCodeword
  rw [List.all_eq_true]
  constructor
  · intro h i hi
    have hlt : i < (rsSyndromes block).length := (length_rsSyndromes block).symm ▸ hi
    rw [← mk_rsSyndromes block hi, mk_eq_zero_iff, List.getD_eq_getElem?_getD, List.getElem?_eq_getElem hlt]
    simpa using h _ (List.getElem_mem hlt)
  · intro h s hs
    obtain ⟨i, hi, rfl⟩ := List.mem_iff_getElem.mp hs
    have hi' : i < nroots := (length_rsSyndromes block) ▸ hi
    have hz := h i hi'
    rw [← mk_rsSyndromes block hi', mk_eq_zero_iff, List.getD_eq_getElem?_getD, List.getElem?_eq_getElem hi] at hz
    simpa using hz

/-! ## The encoder -/

theorem genPoly_xorSum : ∀ i < nroots,
    xorSum (List.range (nroots + 1)) (fun k => alphaTo (modnn (genPoly k + (fcr + i) * prim * k))) = 0 := by
  decide +kernel

/-- The generator polynomial is monic of degree 32 and vanishes at every `beta i`. -/
theorem sum_genPoly {i : ℕ} (hi : i < nroots) :
    ∑ k ∈ Finset.range nroots, alpha ^ genPoly k * beta i ^ k = beta i ^ nroots := by
  have h : (⟨xorSum (List.range (nroots + 1)) fun k => alphaTo (modnn (genPoly k + (fcr + i) * prim * k))⟩ :
      GF256) = 0 := by rw [genPoly_xorSum i hi, mk_zero]
  have hterm : ∀ k, (⟨alphaTo (modnn (genPoly k + (fcr + i) * prim * k))⟩ : GF256) =
      alpha ^ genPoly k * beta i ^ k := fun k => by rw [mk_alphaTo_modnn, pow_add, pow_mul, beta]
  have hlast : alpha ^ genPoly nroots = 1 := pow_zero alpha
  rw [mk_xorSum, ← List.sum_toFinset _ (List.nodup_range), List.toFinset_range, Finset.sum_range_succ,
    Finset.sum_congr rfl fun k _ => hterm k, hterm, hlast, one_mul] at h
  exact CharTwo.add_eq_zero.mp h

theorem sum_range_nroots (f : ℕ → GF256) :
    ∑ j ∈ Finset.range nroots, f j = ∑ j ∈ Finset.range (nroots - 1), f (j + 1) + f 0 :=
  Finset.sum_range_succ' f (nroots - 1)

theorem evalWord_tail (p : List UInt8) {n : ℕ} (hp : p.length = n + 1) (x : GF256) :
    evalWord p.tail x = evalWord p x - ⟨p.getD 0 0⟩ * x ^ n := by
  cases p with
  | nil => simp at hp
  | cons byte p =>
    rw [List.length_cons, Nat.add_right_cancel_iff] at hp
    rw [evalWord_cons, hp, List.tail_cons, List.getD_cons_zero]
    ring

/-- The parity register with the feedback added, before the shift. -/
def feedbackParity (parity : List UInt8) (fb : UInt8) : List UInt8 :=
  tab nroots fun j =>
    if j = 0 then parity.getD 0 0
    else parity.getD j 0 ^^^ (if indexOf fb ≠ a0 then alphaTo (modnn (indexOf fb + genPoly (nroots - j))) else 0)

theorem encodeStep_eq {parity : List UInt8} (hp : parity.length = nroots) (byte : UInt8) :
    encodeStep parity byte = (feedbackParity parity (byte ^^^ parity.getD 0 0)).tail ++
      [if indexOf (byte ^^^ parity.getD 0 0) ≠ a0
        then alphaTo (modnn (indexOf (byte ^^^ parity.getD 0 0) + genPoly 0)) else 0] := by
  simp only [encodeStep, feedbackParity]
  split_ifs with h
  · rfl
  · have htab : parity = tab nroots fun j => if j = 0 then parity.getD 0 0 else parity.getD j 0 := by
      refine List.ext_getElem (by simp [hp]) fun j hj _ => ?_
      simp only [tab, List.getElem_map, List.getElem_range]
      split_ifs with h0
      · subst h0; simp [List.getD_eq_getElem?_getD, hj]
      · simp [List.getD_eq_getElem?_getD, hj]
    simp only [UInt8.xor_zero]
    rw [← htab]

theorem evalWord_feedbackParity {parity : List UInt8} (hp : parity.length = nroots) (fb : UInt8) (x : GF256) :
    evalWord (feedbackParity parity fb) x = evalWord parity x +
      ⟨fb⟩ * ∑ j ∈ Finset.range (nroots - 1), alpha ^ genPoly (j + 1) * x ^ j := by
  have hlen : (feedbackParity parity fb).length = nroots := length_tab _ _
  rw [evalWord_eq_sum, evalWord_eq_sum, hlen, hp, sum_range_nroots, sum_range_nroots, add_right_comm,
    ← Finset.sum_range_reflect (fun j => alpha ^ genPoly (j + 1) * x ^ j), Finset.mul_sum,
    ← Finset.sum_add_distrib]
  congr 1
  refine Finset.sum_congr rfl fun j hj => ?_
  rw [Finset.mem_range] at hj
  rw [feedbackParity, getD_tab, if_pos (by omega), if_neg (by omega), mk_xor, mk_alphaTo_guarded,
    ofIdx_indexOf, show nroots - (j + 1) = nroots - 1 - 1 - j + 1 by omega,
    show nroots - 1 - (j + 1) = nroots - 1 - 1 - j by omega]
  ring

/-- One byte through the encoder, at a root of the generator: multiply by `x ^ 32` and reduce. -/
theorem evalWord_encodeStep {parity : List UInt8} (hp : parity.length = nroots) (byte : UInt8) {i : ℕ}
    (hi : i < nroots) :
    evalWord (encodeStep parity byte) (beta i) =
      evalWord parity (beta i) * beta i + ⟨byte⟩ * beta i ^ nroots := by
  have hg := sum_genPoly hi
  have hg0 : alpha ^ genPoly 0 * beta i ^ 0 = alpha ^ genPoly 0 := by rw [pow_zero, mul_one]
  rw [sum_range_nroots, hg0] at hg
  have hshift : ∑ j ∈ Finset.range (nroots - 1), alpha ^ genPoly (j + 1) * beta i ^ (j + 1) =
      (∑ j ∈ Finset.range (nroots - 1), alpha ^ genPoly (j + 1) * beta i ^ j) * beta i := by
    rw [Finset.sum_mul]
    exact Finset.sum_congr rfl fun j _ => by ring
  have h0 : (feedbackParity parity (byte ^^^ parity.getD 0 0)).getD 0 0 = parity.getD 0 0 := by
    rw [feedbackParity, getD_tab, if_pos (by decide), if_pos rfl]
  rw [hshift] at hg
  rw [encodeStep_eq hp, evalWord_concat, evalWord_tail _ (n := nroots - 1) (by simp [feedbackParity]),
    evalWord_feedbackParity hp, h0, mk_alphaTo_guarded, ofIdx_indexOf, mk_xor]
  generalize ∑ j ∈ Finset.range (nroots - 1), alpha ^ genPoly (j + 1) * beta i ^ j = g at hg ⊢
  have hpow : beta i ^ nroots = beta i ^ (nroots - 1) * beta i := pow_succ (beta i) (nroots - 1)
  rw [hpow] at hg ⊢
  linear_combination (⟨byte⟩ + ⟨parity.getD 0 0⟩) * hg

theorem evalWord_foldl_encodeStep (data : List UInt8) {i : ℕ} (hi : i < nroots) :
    ∀ {parity : List UInt8}, parity.length = nroots →
      evalWord (data.foldl encodeStep parity) (beta i) =
        evalWord parity (beta i) * beta i ^ data.length + evalWord data (beta i) * beta i ^ nroots := by
  induction data with
  | nil => simp
  | cons byte data ih =>
    intro parity hp
    rw [List.foldl_cons, ih (length_encodeStep hp byte), evalWord_encodeStep hp byte hi, evalWord_cons,
      List.length_cons]
    ring

/-- The parity is the data shifted up by 32, modulo the generator. -/
theorem evalWord_rsParity (data : List UInt8) {i : ℕ} (hi : i < nroots) :
    evalWord (rsParity data) (beta i) = evalWord data (beta i) * beta i ^ nroots := by
  rw [rsParity, evalWord_foldl_encodeStep data hi List.length_replicate, evalWord_replicate_zero, zero_mul,
    zero_add]

theorem isCodeword_append_rsParity (data : List UInt8) : IsCodeword (data ++ rsParity data) := by
  rw [isCodeword_iff_evalWord]
  intro i hi
  rw [evalWord_append, length_rsParity, evalWord_rsParity data hi, CharTwo.add_self_eq_zero]

theorem isCodeword_rsEncode (dataIn : Bytes kk) : IsCodeword (rsEncode dataIn).1 :=
  isCodeword_append_rsParity dataIn.1

/-! ## Codewords are encoded blocks -/

/-- A word of 32 bytes that vanishes at every root of the generator is zero. -/
theorem eq_zero_of_evalWord {a : ℕ → GF256} (h : ∀ i < nroots, ∑ j ∈ Finset.range nroots, a j * beta i ^ j = 0)
    {j : ℕ} (hj : j < nroots) : a j = 0 := by
  have hp : Massey.ofSeq a nroots = 0 := by
    refine Polynomial.eq_zero_of_natDegree_lt_card_of_eval_eq_zero' _
      ((Finset.range nroots).image beta) (fun x hx => ?_) ?_
    · obtain ⟨i, hi, rfl⟩ := Finset.mem_image.mp hx
      rw [Massey.eval_ofSeq]
      exact h i (Finset.mem_range.mp hi)
    · rw [Finset.card_image_of_injOn fun i hi j hj => beta_inj (by simpa using hi) (by simpa using hj),
        Finset.card_range]
      refine Nat.lt_succ_of_le (natDegree_le_iff_coeff_eq_zero.mpr fun i hi => ?_)
      rw [Massey.coeff_ofSeq, if_neg (Nat.not_lt.mpr hi)]
  have hc := Massey.coeff_ofSeq a nroots j
  rw [hp, if_pos hj] at hc
  simpa using hc.symm

theorem eq_of_evalWord_eq {p q : List UInt8} (hp : p.length = nroots) (hq : q.length = nroots)
    (h : ∀ i < nroots, evalWord p (beta i) = evalWord q (beta i)) : p = q := by
  have hcoeff : ∀ j < nroots, p.getD (nroots - 1 - j) 0 = q.getD (nroots - 1 - j) 0 := by
    intro j hj
    have hzero := eq_zero_of_evalWord
      (a := fun j => ⟨p.getD (nroots - 1 - j) 0⟩ - ⟨q.getD (nroots - 1 - j) 0⟩) (fun i hi => ?_) hj
    · exact congrArg GF256.byte (sub_eq_zero.mp hzero)
    · have heq := h i hi
      rw [evalWord_eq_sum, evalWord_eq_sum, hp, hq, ← sub_eq_zero, ← Finset.sum_sub_distrib,
        ← Finset.sum_range_reflect] at heq
      rw [← heq]
      refine Finset.sum_congr rfl fun j hj => ?_
      rw [Finset.mem_range] at hj
      rw [show nroots - 1 - (nroots - 1 - j) = j by omega, sub_mul]
  refine eq_of_diffs_eq_empty (hp.trans hq.symm) (Finset.eq_empty_of_forall_notMem fun j hj => ?_)
  have hlt := hp ▸ lt_of_mem_diffs hj
  have heq := hcoeff (nroots - 1 - j) (by omega)
  rw [show nroots - 1 - (nroots - 1 - j) = j by omega] at heq
  exact (mem_diffs_iff_getD (hp.trans hq.symm) 0).mp hj heq

/-- A block is a codeword when its last 32 bytes are the parity of the others. -/
theorem isCodeword_iff_parity (block : Bytes nn) :
    IsCodeword block.1 ↔ block.1.drop kk = rsParity (block.1.take kk) := by
  have hsplit := List.take_append_drop kk block.1
  have hlen : (block.1.drop kk).length = nroots := by
    rw [List.length_drop, block.2]
    rfl
  constructor
  · intro h
    rw [isCodeword_iff_evalWord] at h
    refine eq_of_evalWord_eq hlen (length_rsParity _) fun i hi => ?_
    have hz := h i hi
    rw [← hsplit, evalWord_append, hlen, ← evalWord_rsParity _ hi] at hz
    exact (CharTwo.add_eq_zero.mp hz).symm
  · intro h
    rw [← hsplit, h]
    exact isCodeword_append_rsParity _

/-! ## Syndromes near a codeword -/

/-- The syndromes as a polynomial. -/
noncomputable def synPoly (block : List UInt8) : GF256[X] :=
  Massey.ofSeq (fun i => ⟨(rsSyndromes block).getD i 0⟩) nroots

/-- The weight of position `j`: the error times `posLoc j ^ fcr`. -/
def errWeight (block word : List UInt8) (j : ℕ) : GF256 :=
  (⟨block.getD j 0⟩ - ⟨word.getD j 0⟩) * posLoc j ^ fcr

theorem errWeight_ne_zero {block word : List UInt8} (h : block.length = word.length) {j : ℕ}
    (hj : j ∈ diffs block word) : errWeight block word j ≠ 0 := by
  refine mul_ne_zero (sub_ne_zero.mpr fun heq => ?_) (pow_ne_zero _ (posLoc_ne_zero j))
  exact (mem_diffs_iff_getD h 0).mp hj (congrArg GF256.byte heq)

theorem beta_pow (i j : ℕ) : beta i ^ (nn - 1 - j) = posLoc j ^ fcr * posLoc j ^ i := by
  rw [beta, posLoc, ← pow_add, ← pow_mul, ← pow_mul]
  congr 1
  ring

/-- The syndromes of a block are the power sums of its differences from a codeword. -/
theorem synPoly_eq_powerSums {block word : List UInt8} (hb : block.length = nn) (hw : word.length = nn)
    (hc : IsCodeword word) :
    synPoly block = Locator.powerSums (diffs block word) posLoc (errWeight block word) nroots := by
  rw [isCodeword_iff_evalWord] at hc
  refine Polynomial.ext fun i => ?_
  rw [synPoly, Locator.powerSums, Massey.coeff_ofSeq, Massey.coeff_ofSeq]
  split_ifs with hi
  · rw [mk_rsSyndromes block hi, ← sub_zero (evalWord block (beta i)), ← hc i hi,
      evalWord_sub _ _ (hb.trans hw.symm), hb]
    refine Finset.sum_congr rfl fun j _ => ?_
    rw [beta_pow, errWeight, mul_assoc]
  · rfl

theorem injOn_posLoc {block word : List UInt8} (hb : block.length = nn) :
    Set.InjOn posLoc (diffs block word : Set ℕ) := fun _ hi _ hj h =>
  posLoc_inj (hb ▸ lt_of_mem_diffs hi) (hb ▸ lt_of_mem_diffs hj) h

end SimpleSatOps.Rs
