import SimpleSatOps.Proto.Rs.Decode

/-!
# Refused blocks, and the shortened code

* `rsDecode_intact` : a refused block is left as it is, and the magnitude loop never meets a zero denominator;
* `padded` : the block the shortened decoder works on;
* `rsPycspDecode_within` : within 16 bytes of a codeword the data is the codeword's, the offsets are relative to the
  input;
* `rsPycspDecode_sound` : the data encodes to a block at the reported distance exactly when no offset is negative.
-/

namespace SimpleSatOps.Rs
open Polynomial GF256

/-! ## Refused blocks -/

/-- `lambda_idx` of a block. -/
def lambdaIdxOf (block : List UInt8) : List ℕ := (berlekampMassey ((rsSyndromes block).map indexOf)).map indexOf

theorem locates_lambdaIdxOf (block : List UInt8) : Locates (lambdaIdxOf block) (connection (synPoly block)) :=
  locates_berlekampMassey (holds_synPoly block)

/-- As many roots as the degree: all of them are simple, and no denominator vanishes. -/
theorem forneyDen_ne_zero {lambdaIdx : List ℕ} {P : GF256[X]} (h : Locates lambdaIdx P)
    (hcount : (chienSearch lambdaIdx).length = degLambda lambdaIdx) {q : ℕ × ℕ} (hq : q ∈ chienSearch lambdaIdx) :
    forneyDen lambdaIdx q.1 ≠ 0 := by
  rw [chienSearch_eq h, List.length_map, length_rootIdx h.coeff_zero, h.deg] at hcount
  have hsplits : Splits P := hcount
  rw [chienSearch_eq h] at hq
  obtain ⟨i, hi, rfl⟩ := List.mem_map.mp hq
  have hderiv := hsplits.deriv_ne_zero h.ne_zero (mem_rootIdx.mp hi).2
  rwa [← mk_forneyDen h, ne_eq, mk_eq_zero_iff] at hderiv

/-- **A refused block is intact**: `-1` comes from the root count alone, before any byte is corrected. -/
theorem rsDecode_intact (block : Bytes nn) :
    (∀ outLocs, (rsDecode block outLocs).ret = none → (rsDecode block outLocs).block = block) ∧
      ((chienSearch (lambdaIdxOf block.1)).length = degLambda (lambdaIdxOf block.1) →
        ∀ q ∈ chienSearch (lambdaIdxOf block.1), forneyDen (lambdaIdxOf block.1) q.1 ≠ 0) := by
  refine ⟨fun outLocs hret => ?_, fun hcount q hq => forneyDen_ne_zero (locates_lambdaIdxOf block.1) hcount hq⟩
  by_cases hc : IsCodeword block.1
  · rw [rsDecode_of_isCodeword block outLocs hc]
  by_cases hsplits : Splits (connection (synPoly block.1))
  · obtain ⟨block', heq, -⟩ := rsDecode_of_splits block outLocs hc hsplits
    rw [heq] at hret
    exact absurd hret (by simp)
  · rw [rsDecode_of_not_splits block outLocs hc hsplits]

/-- When only the last syndrome is non-zero the register is corrected once, at the end. -/
theorem connection_last {s : GF256} (hs : s ≠ 0) : connection (C s * X ^ 31) = 1 - C s * X ^ 32 := by
  have hzero : ∀ n ≤ 31, Massey.State.run (C s * X ^ 31) n = ⟨n, 0, 1, X ^ n⟩ := by
    intro n
    induction n with
    | zero => intro _; rfl
    | succ n ih =>
      intro hn
      have hd : (⟨n, 0, 1, X ^ n⟩ : Massey.State GF256).discrepancy (C s * X ^ 31) = 0 := by
        rw [Massey.State.discrepancy, one_mul, coeff_C_mul, coeff_X_pow, if_neg (show n ≠ 31 by omega), mul_zero]
      rw [Massey.State.run_succ, ih (by omega), Massey.State.step, if_pos hd, pow_succ']
  have hd : (⟨31, 0, 1, X ^ 31⟩ : Massey.State GF256).discrepancy (C s * X ^ 31) = s := by
    rw [Massey.State.discrepancy, one_mul, coeff_C_mul, coeff_X_pow, if_pos rfl, mul_one]
  unfold connection
  rw [show nroots = 31 + 1 by rfl, Massey.State.run_succ, hzero 31 le_rfl, Massey.State.step, hd, if_neg hs,
    if_pos (by decide), pow_succ' X 31]

/-- It has one root, 32 times. -/
theorem not_splits_last {s : GF256} (hs : s ≠ 0) : ¬ Splits (1 - C s * X ^ 32) := by
  have hdeg : (1 - C s * X ^ 32 : GF256[X]).natDegree = 32 := by
    rw [natDegree_sub_eq_right_of_natDegree_lt (by rw [natDegree_one, natDegree_C_mul_X_pow 32 s hs]; decide),
      natDegree_C_mul_X_pow 32 s hs]
  have hone : (1 - C s * X ^ 32 : GF256[X]).roots.toFinset.card ≤ 1 := by
    refine Finset.card_le_one.mpr fun x hx y hy => ?_
    have hroot : ∀ z ∈ (1 - C s * X ^ 32 : GF256[X]).roots.toFinset, s * z ^ 2 ^ 5 = 1 := fun z hz => by
      have h0 := (mem_roots'.mp (Multiset.mem_toFinset.mp hz)).2
      rw [IsRoot.def, eval_sub, eval_one, eval_mul, eval_C, eval_pow, eval_X, sub_eq_zero] at h0
      exact h0.symm
    have hpow : (x - y) ^ 2 ^ 5 = 0 := by
      rw [sub_pow_char_pow, mul_left_cancel₀ hs ((hroot x hx).trans (hroot y hy).symm), sub_self]
    exact sub_eq_zero.mp (pow_eq_zero_iff (by decide) |>.mp hpow)
  intro h
  rw [Splits, hdeg] at h
  omega

/-- The product of the factors of the generator at all roots but the last. -/
def lastBlock : Bytes nn := ⟨List.replicate kk 0 ++ cofactor.reverse, by decide +kernel⟩

theorem parityValue_last : ∀ i < nroots, parityValue cofactor.reverse i = if i = 31 then 183 else 0 := by
  decide +kernel

theorem synPoly_lastBlock : synPoly lastBlock.1 = C ⟨183⟩ * X ^ 31 := by
  refine Polynomial.ext fun i => ?_
  rw [synPoly, Massey.coeff_ofSeq, coeff_C_mul, coeff_X_pow]
  split_ifs with hi h31 h31
  · rw [mk_rsSyndromes _ hi, lastBlock, evalWord_parity rfl, parityValue_last i hi, if_pos h31, mul_one]
  · rw [mk_rsSyndromes _ hi, lastBlock, evalWord_parity rfl, parityValue_last i hi, if_neg h31, mul_zero]
    rfl
  · exact absurd (h31 ▸ hi) (by decide)
  · rw [mul_zero]

/-- A block is refused and kept, and three errors are corrected without a zero denominator. -/
theorem rsDecode_intact_last : (rsDecode lastBlock none).block = lastBlock ∧
    ∀ q ∈ chienSearch (lambdaIdxOf threeErrors.1), forneyDen (lambdaIdxOf threeErrors.1) q.1 ≠ 0 := by
  constructor
  · refine (rsDecode_intact lastBlock).1 none ?_
    have hs : (⟨183⟩ : GF256) ≠ 0 := by decide
    have hcode : ¬ IsCodeword lastBlock.1 := fun h => by
      have hzero := (isCodeword_iff_evalWord _).mp h 31 (by decide)
      rw [lastBlock, evalWord_parity rfl, parityValue_last 31 (by decide)] at hzero
      exact hs hzero
    have hsplits : ¬ Splits (connection (synPoly lastBlock.1)) := by
      rw [synPoly_lastBlock, connection_last hs]
      exact not_splits_last hs
    rw [rsDecode_of_not_splits lastBlock none hcode hsplits]
  · refine (rsDecode_intact threeErrors).2 ?_
    have hloc := locates_lambdaIdxOf threeErrors.1
    rw [chienSearch_eq hloc, List.length_map, length_rootIdx hloc.coeff_zero, hloc.deg,
      connection_eq_locator (isCodeword_rsEncode _) threeErrors_near]
    exact splits_locator fun j hj => threeErrors.2 ▸ lt_of_mem_diffs hj

/-! ## The shortened code -/

/-- The block `rs_pycsp_decode` works on: the input behind its zero padding. -/
def padded (input : List UInt8) : List UInt8 := List.replicate (nn - input.length) 0 ++ input

theorem length_padded {input : List UInt8} (h : input.length ≤ nn) : (padded input).length = nn := by
  unfold padded
  rw [List.length_append, List.length_replicate]
  omega

/-- The array starts with the positions of `s`, each once, counted from position `k` on. -/
def ListsOffsets (locs : List ℤ) (s : Finset ℕ) (k : ℕ) : Prop :=
  (locs.take s.card).Nodup ∧ ∀ o : ℤ, o ∈ locs.take s.card ↔ ∃ j ∈ s, (j : ℤ) - k = o

theorem ListsPositions.offsets {locs : List ℤ} {s : Finset ℕ} (h : ListsPositions locs s) (k : ℕ) :
    ListsOffsets (overlay ((locs.take s.card).map (· - (k : ℤ))) locs) s k := by
  have hlen : ((locs.take s.card).map (· - (k : ℤ))).length = s.card := by rw [List.length_map, h.length_take]
  unfold ListsOffsets
  nth_rewrite 1 3 [← hlen]
  rw [take_overlay]
  refine ⟨h.1.map sub_left_injective, fun o => ?_⟩
  rw [List.mem_map]
  constructor
  · rintro ⟨p, hp, rfl⟩
    obtain ⟨j, hj, rfl⟩ := (h.2 p).mp hp
    exact ⟨j, hj, rfl⟩
  · rintro ⟨j, hj, rfl⟩
    exact ⟨j, (h.2 _).mpr ⟨j, hj, rfl⟩, rfl⟩

/-- What is to hold of an input: its data, encoded again, is a block of the same length in which as many bytes differ
as were reported, at most 16, at the offsets reported. -/
def PycspSound (input : List UInt8) : Prop :=
  ∀ (outCap encCap : ℕ) (locs locs' : List ℤ) (data : List UInt8) (n : ℕ), input.length ≤ encCap →
    rsPycspDecode input outCap (some locs) = ⟨some (data, n), some locs'⟩ →
      ∃ coded, rsPycspEncode data encCap = some coded ∧ coded.length = input.length ∧ hamming input coded = n ∧
        n ≤ 16 ∧ ListsPositions locs' (diffs input coded)

section Within
variable {input : List UInt8} {word : Bytes nn}

/-- Within 16 bytes of a codeword the shortened decoder returns its data, with the offsets of the bytes changed. -/
theorem rsPycspDecode_within (hpos : nroots < input.length) (hlen : input.length ≤ nn) (hw : IsCodeword word.1)
    (hd : hamming (padded input) word.1 ≤ 16) {outCap : ℕ} (hcap : input.length - nroots ≤ outCap) (locs : List ℤ) :
    ∃ locs', rsPycspDecode input outCap (some locs) =
        ⟨some (slice word.1 (nn - input.length) (input.length - nroots), hamming (padded input) word.1), some locs'⟩ ∧
      ListsOffsets locs' (diffs (padded input) word.1) (nn - input.length) ∧
      ∃ found, ListsPositions found (diffs (padded input) word.1) ∧ locs' =
        overlay ((found.take (hamming (padded input) word.1)).map (· - ((nn - input.length : ℕ) : ℤ))) found := by
  let block : Bytes nn := ⟨padded input, length_padded hlen⟩
  obtain ⟨hret, hblock, found, hlocs, hlists⟩ := @rsDecode_near block word hw hd locs
  have hdecode := rsPycspDecode_of_ret (by omega) hcap (rfl : block.1 = _) hret
  rw [hblock, hlocs] at hdecode
  exact ⟨_, hdecode, hlists.offsets _, found, hlists, rfl⟩

/-- Without a correction in the padding the codeword is padding and an encoded packet. -/
theorem word_eq_append (hpos : nroots < input.length) (hlen : input.length ≤ nn) (hw : IsCodeword word.1)
    (hpad : ∀ j ∈ diffs (padded input) word.1, nn - input.length ≤ j) {encCap : ℕ} (henc : input.length ≤ encCap) :
    ∃ coded, rsPycspEncode (slice word.1 (nn - input.length) (input.length - nroots)) encCap = some coded ∧
      word.1 = List.replicate (nn - input.length) 0 ++ coded := by
  have hconst : nn = kk + nroots := rfl
  have hwlen := word.2
  have hzeros : word.1.take (nn - input.length) = List.replicate (nn - input.length) 0 := by
    refine List.ext_getElem? fun j => ?_
    by_cases hj : j < nn - input.length
    · have hsame : (padded input)[j]? = word.1[j]? := by
        by_contra hne
        have hmem : j ∈ diffs (padded input) word.1 := mem_diffs.mpr ⟨by rw [length_padded hlen]; omega, hne⟩
        exact absurd (hpad j hmem) (Nat.not_le.mpr hj)
      rw [List.getElem?_take_of_lt hj, ← hsame]
      unfold padded
      rw [List.getElem?_append_left (by rw [List.length_replicate]; exact hj)]
    · rw [List.getElem?_eq_none (by rw [List.length_take]; omega),
        List.getElem?_eq_none (by rw [List.length_replicate]; omega)]
  have hdata : (slice word.1 (nn - input.length) (input.length - nroots)).length = input.length - nroots :=
    length_slice (by omega)
  have hfront : word.1.take kk = List.replicate (kk - (input.length - nroots)) 0 ++
      slice word.1 (nn - input.length) (input.length - nroots) := by
    rw [show kk - (input.length - nroots) = nn - input.length by omega, ← hzeros]
    unfold slice
    rw [show kk = nn - input.length + (input.length - nroots) by omega, List.take_add]
  refine ⟨_, rsPycspEncode_eq (by omega) (by omega), ?_⟩
  rw [hdata, ← hfront, ← (isCodeword_iff_parity word).mp hw, ← List.append_assoc]
  rw [show nn - input.length = kk - (input.length - nroots) by omega] at hfront ⊢
  rw [← hfront, List.take_append_drop]

end Within

/-- **The shortened decoder near a codeword**: the errors reported are at most 16, at the offsets reported; the data
encodes to a block of the input's length at that distance and with those differences exactly when no offset is
negative. -/
theorem rsPycspDecode_sound {input : List UInt8} (hpos : nroots < input.length) (hlen : input.length ≤ nn)
    {word : Bytes nn} (hw : IsCodeword word.1) (hd : hamming (padded input) word.1 ≤ 16) {outCap encCap : ℕ}
    (henc : input.length ≤ encCap) {locs locs' : List ℤ} {data : List UInt8} {n : ℕ}
    (h : rsPycspDecode input outCap (some locs) = ⟨some (data, n), some locs'⟩) :
    n = hamming (padded input) word.1 ∧ n ≤ 16 ∧ data = slice word.1 (nn - input.length) (input.length - nroots) ∧
      ListsOffsets locs' (diffs (padded input) word.1) (nn - input.length) ∧
      ((∀ o ∈ locs'.take n, 0 ≤ o) ↔ ∃ coded, rsPycspEncode data encCap = some coded ∧
        coded.length = input.length ∧ hamming input coded = n ∧ ListsPositions locs' (diffs input coded)) := by
  have hcap : input.length - nroots ≤ outCap := by
    by_contra hshort
    rw [rsPycspDecode, dif_neg (by omega), if_pos (Nat.not_le.mp hshort)] at h
    cases h
  obtain ⟨locs₁, hdecode, hoffsets, found, hfound, hshift⟩ := rsPycspDecode_within hpos hlen hw hd hcap locs
  rw [hdecode, PycspDecoded.mk.injEq, Option.some_inj, Option.some_inj, Prod.mk.injEq] at h
  obtain ⟨⟨rfl, rfl⟩, rfl⟩ := h
  refine ⟨rfl, hd, rfl, hoffsets, fun hnonneg => ?_, ?_⟩
  · have hpad : ∀ j ∈ diffs (padded input) word.1, nn - input.length ≤ j := by
      intro j hj
      have h0 := hnonneg _ ((hoffsets.2 _).mpr ⟨j, hj, rfl⟩)
      omega
    obtain ⟨coded, hcoded, hword⟩ := word_eq_append hpos hlen hw hpad henc
    have hdiffs : diffs (padded input) word.1 = (diffs input coded).map (addRightEmbedding (nn - input.length)) := by
      rw [hword]
      unfold padded
      rw [diffs_append_left, List.length_replicate]
    have hham : hamming (padded input) word.1 = hamming input coded := by
      unfold hamming
      rw [hdiffs, Finset.card_map]
    refine ⟨coded, hcoded, ?_, hham.symm, ?_⟩
    · have hwlen := word.2
      rw [hword, List.length_append, List.length_replicate] at hwlen
      omega
    · rw [hdiffs] at hfound
      rw [hshift, hham]
      exact hfound.shift
  · rintro ⟨coded, -, -, hham, hlists⟩ o ho
    have hcard : (diffs input coded).card = hamming (padded input) word.1 := hham
    rw [← hcard] at ho
    obtain ⟨j, -, rfl⟩ := (hlists.2 o).mp ho
    exact Int.natCast_nonneg j

/-- The encoded block of 1, 0, ..., 0 without its first byte, which then is padding. -/
def headless : List UInt8 := List.replicate 222 0 ++ rsParity (1 :: List.replicate 222 0)

theorem length_headless : headless.length = 254 := by
  unfold headless
  rw [List.length_append, List.length_replicate, length_rsParity]
  rfl

theorem padded_headless : padded headless = [0] ++ headless := by
  have hpad : List.replicate (nn - 254) (0 : UInt8) = [0] := rfl
  unfold padded
  rw [length_headless, hpad]

/-- The encoded block differs from the padded one in the padding. -/
theorem headless_near : ∃ word : Bytes nn, IsCodeword word.1 ∧ diffs (padded headless) word.1 = {0} := by
  have hlen : (1 :: List.replicate 222 (0 : UInt8)).length = kk := by
    rw [List.length_cons, List.length_replicate]
  refine ⟨rsEncode ⟨_, hlen⟩, isCodeword_rsEncode _, ?_⟩
  have hword : (rsEncode ⟨1 :: List.replicate 222 0, hlen⟩).1 = [1] ++ headless := by
    unfold rsEncode headless
    exact List.cons_append
  rw [padded_headless, hword]
  exact diffs_cons_of_ne (by decide) headless

/-- The decoder reports one error, at offset -1. -/
theorem headless_decoded : ∃ word : Bytes nn, IsCodeword word.1 ∧ hamming (padded headless) word.1 = 1 ∧
    ∃ locs' data, rsPycspDecode headless 222 (some []) = ⟨some (data, 1), some locs'⟩ ∧ (-1 : ℤ) ∈ locs'.take 1 := by
  obtain ⟨word, hw, hdiffs⟩ := headless_near
  have hham : hamming (padded headless) word.1 = 1 := by
    unfold hamming
    rw [hdiffs, Finset.card_singleton]
  have hcap : headless.length - nroots ≤ 222 := by
    rw [length_headless]
    decide
  obtain ⟨locs', hdecode, hoffsets, -⟩ := rsPycspDecode_within (by rw [length_headless]; decide)
    (by rw [length_headless]; decide) hw (by rw [hham]; decide) hcap []
  rw [hham] at hdecode
  rw [hdiffs, length_headless] at hoffsets
  exact ⟨word, hw, hham, locs', _, hdecode, (hoffsets.2 (-1)).mpr ⟨0, Finset.mem_singleton_self 0, by decide⟩⟩

/-- **A correction in the padding is accepted**: no byte of the input has offset -1. -/
theorem pycsp_unsound : ¬ PycspSound headless := by
  obtain ⟨-, -, -, locs', data, hdecode, hneg⟩ := headless_decoded
  intro hsound
  obtain ⟨coded, -, -, hcard, -, hlists⟩ := hsound 222 254 [] locs' data 1 (by rw [length_headless]) hdecode
  have hone : (diffs headless coded).card = 1 := hcard
  rw [← hone] at hneg
  obtain ⟨j, -, hj⟩ := (hlists.2 (-1)).mp hneg
  omega

/-- The data of a correction in the padding does not encode to a block at the reported distance. -/
theorem rsPycspDecode_sound_headless : ∃ locs' data, rsPycspDecode headless 222 (some []) =
      ⟨some (data, 1), some locs'⟩ ∧ ¬ ∃ coded, rsPycspEncode data 254 = some coded ∧
        coded.length = headless.length ∧ hamming headless coded = 1 ∧ ListsPositions locs' (diffs headless coded) := by
  obtain ⟨word, hw, hham, locs', data, hdecode, hneg⟩ := headless_decoded
  have hiff := (rsPycspDecode_sound (by rw [length_headless]; decide) (by rw [length_headless]; decide) hw
    (by rw [hham]; decide) (show headless.length ≤ 254 by rw [length_headless]) hdecode).2.2.2.2
  exact ⟨locs', data, hdecode, fun hcoded => absurd (hiff.mpr hcoded _ hneg) (by decide)⟩

end SimpleSatOps.Rs
