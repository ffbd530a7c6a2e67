import SimpleSatOps.Proto.Rs.Forney

/-!
# `rs_decode`: completeness and soundness

* `rsDecode_of_splits`, `rsDecode_of_not_splits` : the two outcomes, by the connection polynomial of the syndromes;
* `rsDecode_near` : within 16 bytes of a codeword the decoder returns it, with the positions it changed;
* `rsPycspDecode_near` : the same through the shortened code.
-/

namespace SimpleSatOps.Rs
open Polynomial GF256

/-- The array starts with the positions of `s`, each once, in some order. -/
def ListsPositions (locs : List ℤ) (s : Finset ℕ) : Prop :=
  (locs.take s.card).Nodup ∧ ∀ p : ℤ, p ∈ locs.take s.card ↔ ∃ j ∈ s, (j : ℤ) = p

/-- The block positions of the roots found. -/
noncomputable def foundLocs (P : GF256[X]) : List ℕ := (rootIdx P).map rootLoc

/-- What the magnitude loop adds at position `p`, over the roots in the order found. -/
noncomputable def correctionAt (S P : GF256[X]) (p : ℕ) : GF256 :=
  ((rootIdx P).map fun i => if rootLoc i = p then magnitude S P i else 0).sum

theorem correction_reverse (S P : GF256[X]) (p : ℕ) :
    correction S P ((rootIdx P).map fun i => (i, rootLoc i)).reverse p = correctionAt S P p := by
  rw [correction, List.map_reverse, List.sum_reverse, List.map_map]
  rfl

section Outcomes
variable (block : Bytes nn) (outLocs : Option (List ℤ))

theorem rsDecode_of_isCodeword (h : IsCodeword block.1) : rsDecode block outLocs = ⟨some 0, block, outLocs⟩ := by
  rw [rsDecode]
  exact if_pos h

theorem rsDecode_of_not_splits (hc : ¬ IsCodeword block.1) (h : ¬ Splits (connection (synPoly block.1))) :
    rsDecode block outLocs = ⟨none, block, outLocs⟩ := by
  have hloc := locates_berlekampMassey (holds_synPoly block.1)
  have hne : degLambda ((berlekampMassey ((rsSyndromes block.1).map indexOf)).map indexOf) ≠
      (chienSearch ((berlekampMassey ((rsSyndromes block.1).map indexOf)).map indexOf)).length := by
    rw [chienSearch_eq hloc, hloc.deg, List.length_map, length_rootIdx hloc.coeff_zero]
    exact fun heq => h heq.symm
  rw [rsDecode]
  dsimp only
  rw [if_neg (show ¬ (rsSyndromes block.1).all (· = 0) = true from hc), if_pos hne]

/-- An accepted block gets its corrections, and the positions of the roots go to the caller's array. -/
theorem rsDecode_of_splits (hc : ¬ IsCodeword block.1) (h : Splits (connection (synPoly block.1))) :
    ∃ block' : Bytes nn, rsDecode block outLocs =
        ⟨some (connection (synPoly block.1)).natDegree, block',
          outLocs.map (overlay ((foundLocs (connection (synPoly block.1))).map (↑)))⟩ ∧
      ∀ p, (⟨block'.1.getD p 0⟩ : GF256) = ⟨block.1.getD p 0⟩ +
        correctionAt (synPoly block.1) (connection (synPoly block.1)) p := by
  have hS := holds_synPoly block.1
  have hloc := locates_berlekampMassey hS
  have hlen : (chienSearch ((berlekampMassey ((rsSyndromes block.1).map indexOf)).map indexOf)).length =
      (connection (synPoly block.1)).natDegree := by
    rw [chienSearch_eq hloc, List.length_map, length_rootIdx hloc.coeff_zero, h]
  obtain ⟨block', heq, hget⟩ := forney_eq hloc hS
    (chienSearch ((berlekampMassey ((rsSyndromes block.1).map indexOf)).map indexOf)).reverse block (by
      rw [chienSearch_eq hloc]
      intro q hq
      obtain ⟨i, hi, rfl⟩ := List.mem_map.mp (List.mem_reverse.mp hq)
      exact ⟨rootLoc_lt i, h.deriv_ne_zero hloc.ne_zero (mem_rootIdx.mp hi).2⟩)
  refine ⟨block', ?_, fun p => ?_⟩
  · rw [rsDecode]
    dsimp only
    rw [if_neg (show ¬ (rsSyndromes block.1).all (· = 0) = true from hc),
      if_neg (by rw [hloc.deg, hlen, ne_eq, not_not]), heq]
    dsimp only
    rw [hlen, chienSearch_eq hloc, List.map_map, foundLocs, List.map_map]
    rfl
  · rw [hget, chienSearch_eq hloc, correction_reverse]

end Outcomes

/-! ## Near a codeword -/

/-- The connection polynomial of at most 16 errors is their locator. -/
theorem connection_eq_locator {block word : Bytes nn} (hw : IsCodeword word.1)
    (hd : hamming block.1 word.1 ≤ 16) :
    connection (synPoly block.1) = Locator.locator (diffs block.1 word.1) posLoc := by
  have hlen := block.2.trans word.2.symm
  rw [connection, synPoly_eq_powerSums block.2 word.2 hw]
  refine Locator.run_powerSums (injOn_posLoc block.2) (fun j _ => posLoc_ne_zero j)
    (fun j hj => errWeight_ne_zero hlen hj) ?_
  change 2 * hamming block.1 word.1 ≤ 32
  omega

theorem diffs_eq_empty_of_isCodeword {block word : Bytes nn} (hb : IsCodeword block.1) (hw : IsCodeword word.1)
    (hd : hamming block.1 word.1 ≤ 16) : block = word := by
  have h1 := connection_eq_locator hw hd
  have h2 := connection_eq_locator hb ((hamming_self block.1).trans_le (Nat.zero_le 16))
  rw [h1, diffs_self] at h2
  have hcard := congrArg natDegree h2
  rw [Locator.natDegree_locator (fun j _ => posLoc_ne_zero j),
    Locator.natDegree_locator (fun j _ => posLoc_ne_zero j), Finset.card_empty] at hcard
  exact Subtype.ext (eq_of_hamming_eq_zero (block.2.trans word.2.symm) hcard)

section Near
variable {D : Finset ℕ}

theorem mem_foundLocs_locator (hD : ∀ j ∈ D, j < nn) {p : ℕ} :
    p ∈ foundLocs (Locator.locator D posLoc) ↔ p ∈ D := by
  rw [foundLocs, List.mem_map]
  constructor
  · rintro ⟨i, hi, rfl⟩
    obtain ⟨j, hj, hji⟩ := (Locator.eval_locator_eq_zero_iff _ _ _).mp (mem_rootIdx.mp hi).2
    have hlocs : posLoc j = posLoc (rootLoc i) :=
      mul_right_cancel₀ (pow_ne_zero i alpha_ne_zero) (hji.trans (posLoc_rootLoc i).symm)
    rwa [← posLoc_inj (hD j hj) (rootLoc_lt i) hlocs]
  · intro hp
    obtain ⟨i, h1, h2, hi⟩ := exists_alpha_pow (inv_ne_zero (posLoc_ne_zero p))
    have hpi : posLoc p * alpha ^ i = 1 := by rw [← hi, mul_inv_cancel₀ (posLoc_ne_zero p)]
    refine ⟨i, mem_rootIdx.mpr ⟨⟨h1, h2⟩, (Locator.eval_locator_eq_zero_iff _ _ _).mpr ⟨p, hp, hpi⟩⟩, ?_⟩
    have hlocs : posLoc (rootLoc i) = posLoc p :=
      mul_right_cancel₀ (pow_ne_zero i alpha_ne_zero) ((posLoc_rootLoc i).trans hpi.symm)
    exact posLoc_inj (rootLoc_lt i) (hD p hp) hlocs

/-- Distinct roots have distinct positions. -/
theorem rootLoc_injOn (P : GF256[X]) : ∀ i ∈ rootIdx P, ∀ k ∈ rootIdx P, rootLoc i = rootLoc k → i = k := by
  intro i hi k hk h
  refine alpha_pow_injOn (mem_rootIdx.mp hi).1 (mem_rootIdx.mp hk).1 ?_
  refine mul_left_cancel₀ (posLoc_ne_zero (rootLoc i)) ?_
  rw [posLoc_rootLoc, h, posLoc_rootLoc]

theorem nodup_foundLocs (P : GF256[X]) : (foundLocs P).Nodup :=
  (nodup_rootIdx P).map_on fun i hi k hk h => rootLoc_injOn P i hi k hk h

theorem toFinset_foundLocs (hD : ∀ j ∈ D, j < nn) : (foundLocs (Locator.locator D posLoc)).toFinset = D := by
  ext p
  rw [List.mem_toFinset, mem_foundLocs_locator hD]

theorem length_foundLocs (hD : ∀ j ∈ D, j < nn) : (foundLocs (Locator.locator D posLoc)).length = D.card := by
  rw [← List.toFinset_card_of_nodup (nodup_foundLocs _), toFinset_foundLocs hD]

theorem splits_locator (hD : ∀ j ∈ D, j < nn) : Splits (Locator.locator D posLoc) := by
  rw [Splits, ← length_rootIdx (Locator.coeff_zero_locator _ _),
    Locator.natDegree_locator (fun j _ => posLoc_ne_zero j), ← length_foundLocs hD, foundLocs, List.length_map]

theorem listsPositions_overlay (hD : ∀ j ∈ D, j < nn) (locs : List ℤ) :
    ListsPositions (overlay ((foundLocs (Locator.locator D posLoc)).map (↑)) locs) D := by
  have hlen : ((foundLocs (Locator.locator D posLoc)).map ((↑) : ℕ → ℤ)).length = D.card := by
    rw [List.length_map, length_foundLocs hD]
  rw [ListsPositions, ← hlen, take_overlay]
  refine ⟨(nodup_foundLocs _).map Nat.cast_injective, fun p => ?_⟩
  rw [List.mem_map]
  simp only [mem_foundLocs_locator hD]

theorem correctionAt_of_notMem (S : GF256[X]) {P : GF256[X]} {p : ℕ} (hp : p ∉ foundLocs P) :
    correctionAt S P p = 0 := by
  rw [correctionAt, ← List.sum_toFinset _ (nodup_rootIdx P)]
  refine Finset.sum_eq_zero fun i hi => if_neg fun h => hp ?_
  exact List.mem_map.mpr ⟨i, List.mem_toFinset.mp hi, h⟩

/-- At the position of a root the loop adds the magnitude of that root. -/
theorem correctionAt_of_mem (S : GF256[X]) {P : GF256[X]} {p : ℕ} (hp : p ∈ foundLocs P) :
    ∃ i, posLoc p * alpha ^ i = 1 ∧ correctionAt S P p = magnitude S P i := by
  obtain ⟨i, hi, rfl⟩ := List.mem_map.mp hp
  refine ⟨i, posLoc_rootLoc i, ?_⟩
  rw [correctionAt, ← List.sum_toFinset _ (nodup_rootIdx P), Finset.sum_eq_single i, if_pos rfl]
  · intro k hk hki
    exact if_neg fun h => hki (rootLoc_injOn P k (List.mem_toFinset.mp hk) i hi h)
  · exact fun h => absurd (List.mem_toFinset.mpr hi) h

end Near

/-- Forney's formula with the code's `fcr`: the magnitude at the root of a position is its error. -/
theorem magnitude_eq {block word : Bytes nn} (hw : IsCodeword word.1) (hd : hamming block.1 word.1 ≤ 16) {p : ℕ}
    (hp : p ∈ diffs block.1 word.1) {i : ℕ} (hi : posLoc p * alpha ^ i = 1) :
    magnitude (synPoly block.1) (connection (synPoly block.1)) i = ⟨block.1.getD p 0⟩ - ⟨word.1.getD p 0⟩ := by
  have hx : alpha ^ i = (posLoc p)⁻¹ := eq_inv_of_mul_eq_one_right hi
  have hcard : (diffs block.1 word.1).card ≤ nroots := hd.trans (by decide)
  have hinj : Set.InjOn posLoc (diffs block.1 word.1 : Set ℕ) := injOn_posLoc block.2
  have hweight := Locator.weight_eq (errWeight block.1 word.1) hinj hp (posLoc_ne_zero p)
  rw [magnitude, evaluatorOf, connection_eq_locator hw hd, synPoly_eq_powerSums block.2 word.2 hw,
    Locator.lowPart_locator_mul _ _ hcard, hx]
  refine mul_right_cancel₀ (pow_ne_zero fcr (posLoc_ne_zero p)) ?_
  rw [errWeight] at hweight
  rw [hweight, CharTwo.neg_eq, inv_pow, div_mul_eq_mul_div, mul_assoc, show fcr = fcr - 1 + 1 by rfl, pow_succ,
    Nat.add_sub_cancel, inv_mul_cancel_left₀ (pow_ne_zero _ (posLoc_ne_zero p)), mul_comm (posLoc p)]

theorem getD_corrected {block word : Bytes nn} (hw : IsCodeword word.1) (hd : hamming block.1 word.1 ≤ 16)
    (p : ℕ) :
    (⟨block.1.getD p 0⟩ : GF256) + correctionAt (synPoly block.1) (connection (synPoly block.1)) p =
      ⟨word.1.getD p 0⟩ := by
  have hlen := block.2.trans word.2.symm
  have hmem : p ∈ foundLocs (connection (synPoly block.1)) ↔ p ∈ diffs block.1 word.1 := by
    rw [connection_eq_locator hw hd]
    exact mem_foundLocs_locator fun j hj => block.2 ▸ lt_of_mem_diffs hj
  by_cases hp : p ∈ diffs block.1 word.1
  · obtain ⟨i, hi, heq⟩ := correctionAt_of_mem (synPoly block.1) (hmem.mpr hp)
    rw [heq, magnitude_eq hw hd hp hi, CharTwo.sub_eq_add, ← add_assoc, CharTwo.add_self_eq_zero, zero_add]
  · rw [correctionAt_of_notMem _ (mt hmem.mp hp), add_zero,
      not_not.mp (mt (mem_diffs_iff_getD hlen 0).mpr hp)]

/-- **Within 16 bytes of a codeword the decoder returns it**, with the number of bytes changed and their
positions. -/
theorem rsDecode_near {block word : Bytes nn} (hw : IsCodeword word.1) (hd : hamming block.1 word.1 ≤ 16)
    (locs : List ℤ) :
    (rsDecode block (some locs)).ret = some (hamming block.1 word.1) ∧
      (rsDecode block (some locs)).block = word ∧
      ∃ locs', (rsDecode block (some locs)).outLocs = some locs' ∧ ListsPositions locs' (diffs block.1 word.1) := by
  by_cases hb : IsCodeword block.1
  · obtain rfl := diffs_eq_empty_of_isCodeword hb hw hd
    rw [rsDecode_of_isCodeword block _ hb, hamming_self, diffs_self]
    exact ⟨rfl, rfl, locs, rfl, by simp [ListsPositions]⟩
  · have hD : ∀ j ∈ diffs block.1 word.1, j < nn := fun j hj => block.2 ▸ lt_of_mem_diffs hj
    have hsplits : Splits (connection (synPoly block.1)) := by
      rw [connection_eq_locator hw hd]
      exact splits_locator hD
    obtain ⟨block', heq, hget⟩ := rsDecode_of_splits block (some locs) hb hsplits
    have hword : block' = word := by
      have hlen := block'.2.trans word.2.symm
      have hbyte : ∀ p, block'.1.getD p 0 = word.1.getD p 0 := fun p =>
        congrArg GF256.byte ((hget p).trans (getD_corrected hw hd p))
      exact Subtype.ext (eq_of_diffs_eq_empty hlen (Finset.eq_empty_of_forall_notMem fun p hp =>
        (mem_diffs_iff_getD hlen 0).mp hp (hbyte p)))
    rw [heq, hword]
    refine ⟨?_, rfl, _, rfl, ?_⟩
    · rw [connection_eq_locator hw hd, Locator.natDegree_locator (fun j _ => posLoc_ne_zero j), hamming]
    · rw [connection_eq_locator hw hd]
      exact listsPositions_overlay hD locs

/-! ## The shortened code -/

theorem ListsPositions.length_take {locs : List ℤ} {s : Finset ℕ} (h : ListsPositions locs s) :
    (locs.take s.card).length = s.card := by
  have himage : (locs.take s.card).toFinset = s.image (↑) := by
    ext p
    rw [List.mem_toFinset, h.2, Finset.mem_image]
  rw [← List.toFinset_card_of_nodup h.1, himage, Finset.card_image_of_injective _ Nat.cast_injective]

/-- Positions in the padded block, moved back to the bytes received. -/
theorem ListsPositions.shift {locs : List ℤ} {s : Finset ℕ} {k : ℕ}
    (h : ListsPositions locs (s.map (addRightEmbedding k))) :
    ListsPositions (overlay ((locs.take s.card).map (· - (k : ℤ))) locs) s := by
  have hlen := h.length_take
  rw [ListsPositions] at h
  rw [Finset.card_map] at h hlen
  have hmaplen : ((locs.take s.card).map (· - (k : ℤ))).length = s.card := by rw [List.length_map, hlen]
  rw [ListsPositions]
  nth_rewrite 1 3 [← hmaplen]
  rw [take_overlay]
  refine ⟨h.1.map sub_left_injective, fun p => ?_⟩
  rw [List.mem_map]
  constructor
  · rintro ⟨q, hq, rfl⟩
    obtain ⟨j, hj, rfl⟩ := (h.2 q).mp hq
    obtain ⟨j, hjs, rfl⟩ := Finset.mem_map.mp hj
    exact ⟨j, hjs, by simp⟩
  · rintro ⟨j, hj, rfl⟩
    exact ⟨j + k, (h.2 _).mpr ⟨j + k, Finset.mem_map.mpr ⟨j, hj, rfl⟩, by simp⟩, by simp⟩

theorem rsPycspEncode_eq {data : List UInt8} (hdata : data.length ≤ kk) {outCap : ℕ}
    (hcap : data.length + nroots ≤ outCap) :
    rsPycspEncode data outCap = some (data ++ rsParity (List.replicate (kk - data.length) 0 ++ data)) := by
  rw [rsPycspEncode, dif_neg (Nat.not_lt.mpr hdata), if_neg (Nat.not_lt.mpr hcap)]
  have hlen := slice_append_left (List.replicate (kk - data.length) (0 : UInt8))
    (data ++ rsParity (List.replicate (kk - data.length) 0 ++ data)) []
  rw [List.length_append, length_rsParity, List.length_replicate, List.append_nil, ← List.append_assoc] at hlen
  exact congrArg some hlen

/-- The shortened decoder when the padded block decodes. -/
theorem rsPycspDecode_of_ret {input : List UInt8} {outCap errs : ℕ} {locs : Option (List ℤ)}
    (h : ¬ (input.length ≤ nroots ∨ nn < input.length)) (hcap : input.length - nroots ≤ outCap) {block : Bytes nn}
    (hb : block.1 = List.replicate (nn - input.length) 0 ++ input) (hret : (rsDecode block locs).ret = some errs) :
    rsPycspDecode input outCap locs =
      ⟨some (slice (rsDecode block locs).block.1 (nn - input.length) (input.length - nroots), errs),
        (rsDecode block locs).outLocs.map fun ls =>
          overlay ((ls.take errs).map (· - ((nn - input.length : ℕ) : ℤ))) ls⟩ := by
  obtain ⟨bytes, hlen⟩ := block
  dsimp only at hb
  subst hb
  rw [rsPycspDecode, dif_neg h, if_neg (Nat.not_lt.mpr hcap)]
  dsimp only
  rw [hret]

/-- **Within 16 bytes of an encoded packet the shortened decoder returns its data.** -/
theorem rsPycspDecode_near {data received coded : List UInt8} {encCap outCap : ℕ} (hpos : 1 ≤ data.length)
    (hdata : data.length ≤ kk) (hcap : data.length ≤ outCap) (hcoded : rsPycspEncode data encCap = some coded)
    (hlen : received.length = coded.length) (hd : hamming received coded ≤ 16) (locs : List ℤ) :
    (rsPycspDecode received outCap (some locs)).result = some (data, hamming received coded) ∧
      ∃ locs', (rsPycspDecode received outCap (some locs)).outLocs = some locs' ∧
        ListsPositions locs' (diffs received coded) := by
  have henc : data.length + nroots ≤ encCap := by
    by_contra hlt
    rw [rsPycspEncode, dif_neg (Nat.not_lt.mpr hdata), if_pos (Nat.not_le.mp hlt)] at hcoded
    exact absurd hcoded (by simp)
  rw [rsPycspEncode_eq hdata henc, Option.some_inj] at hcoded
  subst hcoded
  have hrec : received.length = data.length + nroots := by
    rw [hlen, List.length_append, length_rsParity]
  have hconst : nn = kk + nroots := rfl
  have hpad : nn - received.length = kk - data.length := by omega
  let block : Bytes nn := ⟨List.replicate (nn - received.length) 0 ++ received, by simp; omega⟩
  let word : Bytes nn := rsEncode ⟨List.replicate (kk - data.length) 0 ++ data, by simp; omega⟩
  have hword : word.1 = List.replicate (kk - data.length) 0 ++
      (data ++ rsParity (List.replicate (kk - data.length) 0 ++ data)) := List.append_assoc _ _ _
  have hblock : block.1 = List.replicate (kk - data.length) 0 ++ received :=
    congrArg (fun n => List.replicate n 0 ++ received) hpad
  have hham : hamming block.1 word.1 =
      hamming received (data ++ rsParity (List.replicate (kk - data.length) 0 ++ data)) := by
    rw [hblock, hword, hamming_append_left]
  obtain ⟨hret, hout, locs', hlocs, hlists⟩ := rsDecode_near (isCodeword_rsEncode _) (hham.trans_le hd) locs
  have hcap' : received.length - nroots ≤ outCap := by omega
  have hdecode := rsPycspDecode_of_ret (by omega) hcap' (rfl : block.1 = _) hret
  rw [hdecode, hout, hlocs]
  constructor
  · have hslice := slice_append_left (List.replicate (kk - data.length) (0 : UInt8)) data
      (rsParity (List.replicate (kk - data.length) 0 ++ data))
    rw [List.length_replicate, List.append_assoc, ← hword] at hslice
    rw [hpad, hrec, Nat.add_sub_cancel, hslice, hham]
  · refine ⟨_, rfl, ?_⟩
    rw [hham, hpad]
    refine ListsPositions.shift ?_
    rw [hblock, hword, diffs_append_left, List.length_replicate] at hlists
    exact hlists

/-- **Completeness**: `rs_decode` undoes every corruption of at most 16 bytes of an encoded block, and so does the
shortened code, with positions in the bytes received. -/
theorem rsDecode_complete :
    (∀ (dataIn : Bytes kk) (received : Bytes nn) (locs : List ℤ), hamming received.1 (rsEncode dataIn).1 ≤ 16 →
      (rsDecode received (some locs)).ret = some (hamming received.1 (rsEncode dataIn).1) ∧
        (rsDecode received (some locs)).block = rsEncode dataIn ∧
        ∃ locs', (rsDecode received (some locs)).outLocs = some locs' ∧
          ListsPositions locs' (diffs received.1 (rsEncode dataIn).1)) ∧
    ∀ (data : List UInt8) (encCap outCap : ℕ) (locs : List ℤ), 1 ≤ data.length → data.length ≤ kk →
      data.length + nroots ≤ encCap → data.length ≤ outCap →
      ∃ coded, rsPycspEncode data encCap = some coded ∧ coded.length = data.length + nroots ∧
        ∀ received : List UInt8, received.length = coded.length → hamming received coded ≤ 16 →
          (rsPycspDecode received outCap (some locs)).result = some (data, hamming received coded) ∧
            ∃ locs', (rsPycspDecode received outCap (some locs)).outLocs = some locs' ∧
              ListsPositions locs' (diffs received coded) := by
  refine ⟨fun dataIn received locs h => rsDecode_near (isCodeword_rsEncode dataIn) h locs, ?_⟩
  intro data encCap outCap locs hpos hdata henc hout
  refine ⟨_, rsPycspEncode_eq hdata henc, by rw [List.length_append, length_rsParity], ?_⟩
  exact fun received hlen hd => rsPycspDecode_near hpos hdata hout (rsPycspEncode_eq hdata henc) hlen hd locs

/-- The block of zeros with three bytes changed, one of them in the parity. -/
def threeErrors : Bytes nn := ⟨List.replicate 7 0 ++ [1, 2] ++ List.replicate 245 0 ++ [3], by decide +kernel⟩

theorem rsEncode_zeros : (rsEncode ⟨List.replicate kk 0, by simp⟩).1 = List.replicate nn 0 := by decide +kernel

theorem threeErrors_near : hamming threeErrors.1 (rsEncode ⟨List.replicate kk 0, by simp⟩).1 ≤ 16 := by
  rw [rsEncode_zeros]
  decide +kernel

theorem rsDecode_complete_threeErrors :
    (rsDecode threeErrors (some [])).block = rsEncode ⟨List.replicate kk 0, by simp⟩ ∧
      (rsPycspDecode (slice threeErrors.1 200 55) 23 (some [])).result = some (List.replicate 23 0, 1) := by
  refine ⟨(rsDecode_complete.1 _ threeErrors [] threeErrors_near).2.1, ?_⟩
  obtain ⟨coded, hcoded, -, hdec⟩ := rsDecode_complete.2 (List.replicate 23 0) 55 23 [] (by decide) (by decide)
    (by decide) (by decide)
  have heq : rsPycspEncode (List.replicate 23 0) 55 = some (List.replicate 55 0) := by decide +kernel
  obtain rfl := Option.some_inj.mp (hcoded.symm.trans heq)
  have h1 : hamming (slice threeErrors.1 200 55) (List.replicate 55 0) = 1 := by decide +kernel
  have h := (hdec (slice threeErrors.1 200 55) (by decide +kernel) (by rw [h1]; decide)).1
  rwa [h1] at h

/-! ## Soundness -/

/-- What `rs.h` promises of a block: when `rs_decode` returns a count, at most 16, the block afterwards is a
codeword, the count is the number of bytes changed and `out_locs` starts with their positions. -/
def DecodeSound (block : Bytes nn) : Prop :=
  ∀ (locs : List ℤ) (n : ℕ), (rsDecode block (some locs)).ret = some n →
    IsCodeword (rsDecode block (some locs)).block.1 ∧
      hamming block.1 (rsDecode block (some locs)).block.1 = n ∧ n ≤ 16 ∧
      ∃ locs', (rsDecode block (some locs)).outLocs = some locs' ∧
        ListsPositions locs' (diffs block.1 (rsDecode block (some locs)).block.1)

theorem decodeSound_of_near {block word : Bytes nn} (hw : IsCodeword word.1)
    (hd : hamming block.1 word.1 ≤ 16) : DecodeSound block := by
  intro locs n hn
  obtain ⟨hret, hblock, hlocs⟩ := rsDecode_near hw hd locs
  rw [hret, Option.some_inj] at hn
  rw [hblock, ← hn]
  exact ⟨hw, rfl, hd, hlocs⟩

/-- **When the decoder is sound**: exactly when some codeword lies within 16 bytes, or the connection polynomial of
the syndromes has fewer distinct roots than its degree, so that the block is refused. -/
theorem rsDecode_sound_iff (block : Bytes nn) :
    DecodeSound block ↔ (∃ word : Bytes nn, IsCodeword word.1 ∧ hamming block.1 word.1 ≤ 16) ∨
      ¬ Splits (connection (synPoly block.1)) := by
  constructor
  · intro hsound
    by_cases hsplits : Splits (connection (synPoly block.1))
    · left
      by_cases hb : IsCodeword block.1
      · exact ⟨block, hb, by simp⟩
      · obtain ⟨block', heq, -⟩ := rsDecode_of_splits block (some []) hb hsplits
        obtain ⟨hcode, hham, hle, -⟩ := hsound [] _ (congrArg RsDecoded.ret heq)
        exact ⟨_, hcode, hham.trans_le hle⟩
    · exact Or.inr hsplits
  · rintro (⟨word, hw, hd⟩ | hsplits)
    · exact decodeSound_of_near hw hd
    · intro locs n hn
      by_cases hb : IsCodeword block.1
      · rw [rsDecode_of_isCodeword block _ hb, Option.some_inj] at hn
        subst hn
        rw [rsDecode_of_isCodeword block _ hb]
        exact ⟨hb, by simp, by decide, locs, rfl, by simp [ListsPositions]⟩
      · rw [rsDecode_of_not_splits block _ hb hsplits] at hn
        exact absurd hn (by simp)

/-- When only the first syndrome is non-zero the register is corrected twice and ends as the constant one. -/
theorem connection_C {s : GF256} (hs : s ≠ 0) : connection (C s) = 1 := by
  have h1 : Massey.State.run (C s) 1 = ⟨1, 1, 1 - C s * (X * 1), C s⁻¹ * 1⟩ := by
    have hd : (Massey.State.init : Massey.State GF256).discrepancy (C s) = s := by
      simp [Massey.State.discrepancy, Massey.State.init]
    rw [Massey.State.run_succ, show Massey.State.run (C s) 0 = Massey.State.init from rfl, Massey.State.step, hd,
      if_neg hs, if_pos (by simp [Massey.State.init])]
    rfl
  have hd1 : (1 - C s * (X * 1)) * C s = C s - C (s * s) * X := by
    rw [C_mul]
    ring
  have hrun : ∀ n, (Massey.State.run (C s) (n + 2)).Λ = 1 := by
    intro n
    induction n with
    | zero =>
      have hd : (Massey.State.run (C s) 1).discrepancy (C s) = -(s * s) := by
        rw [Massey.State.discrepancy, h1, hd1]
        simp [coeff_C]
      rw [Massey.State.run_succ, Massey.State.step, hd, if_neg (neg_ne_zero.mpr (mul_ne_zero hs hs)), h1,
        if_neg (by simp)]
      change 1 - C s * (X * 1) - C (-(s * s)) * (X * (C s⁻¹ * 1)) = 1
      have hinv : C (-(s * s)) * C s⁻¹ = -C s := by
        rw [← C_mul, neg_mul, mul_assoc, mul_inv_cancel₀ hs, mul_one, C_neg]
      linear_combination (-X) * hinv
    | succ n ih =>
      have hd : (Massey.State.run (C s) (n + 2)).discrepancy (C s) = 0 := by
        rw [Massey.State.discrepancy, ih, one_mul, Massey.run_n, coeff_C, if_neg (by omega)]
      rw [Massey.State.run_succ, Massey.State.step, if_pos hd]
      exact ih
  exact hrun 30

/-- The product of the factors of the generator at all roots but the first. -/
def cofactor : List UInt8 :=
  [1, 78, 251, 201, 91, 12, 241, 246, 23, 25, 98, 123, 13, 191, 50, 244, 45, 224, 116, 174, 109, 184, 250, 47, 139,
    216, 132, 238, 25, 60, 125, 30]

/-- The cofactor as a parity field after 223 zeros: only the first syndrome is non-zero. -/
def cofactorBlock : Bytes nn := ⟨List.replicate kk 0 ++ cofactor, by decide +kernel⟩

/-- The value at a root of a block that is zero in front of its parity field, as the tables compute it. -/
def parityValue (parity : List UInt8) (i : ℕ) : UInt8 :=
  xorSum (List.range nroots) fun j =>
    if indexOf (parity.getD j 0) ≠ a0 then
      alphaTo (modnn (indexOf (parity.getD j 0) + (fcr + i) * prim * (nroots - 1 - j)))
    else 0

theorem evalWord_parity {parity : List UInt8} (hlen : parity.length = nroots) (i : ℕ) :
    evalWord (List.replicate kk 0 ++ parity) (beta i) = ⟨parityValue parity i⟩ := by
  have hterm : ∀ j, (⟨parity.getD j 0⟩ : GF256) * beta i ^ (nroots - 1 - j) = ⟨if indexOf (parity.getD j 0) ≠ a0
      then alphaTo (modnn (indexOf (parity.getD j 0) + (fcr + i) * prim * (nroots - 1 - j))) else 0⟩ := fun j => by
    rw [mk_alphaTo_guarded, ofIdx_indexOf, pow_mul, beta]
  rw [evalWord_append, evalWord_replicate_zero, zero_mul, zero_add, evalWord_eq_sum, hlen,
    Finset.sum_congr rfl fun j _ => hterm j, parityValue, mk_xorSum, ← List.sum_toFinset _ List.nodup_range,
    List.toFinset_range]

theorem parityValue_cofactor : ∀ i < nroots, parityValue cofactor i = if i = 0 then 113 else 0 := by
  decide +kernel

theorem evalWord_cofactor {i : ℕ} (hi : i < nroots) :
    evalWord cofactorBlock.1 (beta i) = if i = 0 then ⟨113⟩ else 0 := by
  rw [cofactorBlock, evalWord_parity rfl, parityValue_cofactor i hi]
  split_ifs <;> rfl

/-- **`rs_decode` is not sound**: it reports 0 corrections for a block that is no codeword. -/
theorem rsDecode_unsound : ¬ DecodeSound cofactorBlock := by
  have hsyn : synPoly cofactorBlock.1 = C ⟨113⟩ := by
    refine Polynomial.ext fun i => ?_
    rw [synPoly, Massey.coeff_ofSeq, coeff_C]
    split_ifs with hi h0 h0
    · rw [mk_rsSyndromes _ hi, evalWord_cofactor hi, if_pos h0]
    · rw [mk_rsSyndromes _ hi, evalWord_cofactor hi, if_neg h0]
    · exact absurd (h0 ▸ hi) (by decide)
    · rfl
  have hcode : ¬ IsCodeword cofactorBlock.1 := fun h => by
    have hzero := (isCodeword_iff_evalWord _).mp h 0 (by decide)
    rw [evalWord_cofactor (by decide)] at hzero
    exact absurd hzero (by decide)
  have hconn : connection (synPoly cofactorBlock.1) = 1 := by
    rw [hsyn]
    exact connection_C (by decide)
  have hsplits : Splits (connection (synPoly cofactorBlock.1)) := by simp [hconn, Splits]
  obtain ⟨block', heq, -⟩ := rsDecode_of_splits cofactorBlock (some []) hcode hsplits
  intro hsound
  obtain ⟨hword, hham, -⟩ := hsound [] 0 (by rw [heq, hconn, natDegree_one])
  have hlen := (rsDecode cofactorBlock (some [])).block.2
  rw [← eq_of_hamming_eq_zero (cofactorBlock.2.trans hlen.symm) hham] at hword
  exact hcode hword

end SimpleSatOps.Rs
