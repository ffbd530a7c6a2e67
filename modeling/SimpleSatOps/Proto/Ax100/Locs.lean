import SimpleSatOps.Proto.Ax100

/-!
# The error locations are output only

A caller that loops over matches hands the same `rs_locs` array to every attempt. Its contents change nothing else.

* `Tried.Agree`, `Unframed.Agree` : equal but for the array;
* `rsPycspDecode_outLocs`, `rsPycspDecode_outLocs_congr` : the entries that count are written by the decode that
  succeeds;
* `unframe_agree` : `ax100_unframe` over two arrays.
-/

namespace SimpleSatOps.Ax100
open Rs Golay24

structure Tried.Agree (r r' : Tried) : Prop where
  packet : r.packet = r'.packet
  hmacOk : r.hmacOk = r'.hmacOk
  rsErrors : r.rsErrors = r'.rsErrors

structure Unframed.Agree (u u' : Unframed) : Prop where
  ret : u.ret = u'.ret
  outPacket : u.outPacket = u'.outPacket
  golayErrors : u.golayErrors = u'.golayErrors
  hmacOk : u.hmacOk = u'.hmacOk
  rsErrors : u.rsErrors = u'.rsErrors
  usedGolayLen : u.usedGolayLen = u'.usedGolayLen

theorem rsDecode_locs (block : Bytes nn) (locs locs' : Option (List ℤ)) :
    (rsDecode block locs).ret = (rsDecode block locs').ret ∧
      (rsDecode block locs).block = (rsDecode block locs').block := by
  unfold rsDecode
  dsimp only
  split_ifs
  · exact ⟨rfl, rfl⟩
  · exact ⟨rfl, rfl⟩
  · split <;> exact ⟨rfl, rfl⟩

theorem rsPycspDecode_locs (input : List UInt8) (outCap : ℕ) (locs locs' : Option (List ℤ)) :
    (rsPycspDecode input outCap locs).result = (rsPycspDecode input outCap locs').result := by
  unfold rsPycspDecode
  split_ifs with h1 h2
  · rfl
  · rfl
  · obtain ⟨hret, hblock⟩ := rsDecode_locs ⟨List.replicate (nn - input.length) 0 ++ input, by simp; omega⟩ locs locs'
    dsimp only
    rw [hret, hblock]
    generalize (rsDecode _ locs').ret = ret
    cases ret <;> rfl

/-- A successful decode overwrites as many entries as it reports errors. -/
theorem rsDecode_outLocs {block : Bytes nn} {locs : Option (List ℤ)} {n : ℕ} (h : (rsDecode block locs).ret = some n) :
    ∃ found : List ℤ, found.length = n ∧ ∀ l, (rsDecode block (some l)).outLocs = some (overlay found l) := by
  unfold rsDecode at h ⊢
  dsimp only at h ⊢
  split_ifs at h ⊢ with hzero hdeg
  · obtain rfl := Option.some_inj.mp h
    exact ⟨[], rfl, fun l => rfl⟩
  · split at h
    · cases h
    · obtain rfl := Option.some_inj.mp h
      exact ⟨_, List.length_map _, fun l => rfl⟩

/-- The offsets reported with a success are those of this decode, whatever stood in the array before. -/
theorem rsPycspDecode_outLocs {input data : List UInt8} {outCap errs : ℕ} {locs : Option (List ℤ)}
    (h : (rsPycspDecode input outCap locs).result = some (data, errs)) : ∃ found : List ℤ, found.length = errs ∧
      ∀ l, (rsPycspDecode input outCap (some l)).outLocs.map (List.take errs) = some found := by
  unfold rsPycspDecode at h ⊢
  split_ifs at h ⊢ with hrange hcap
  dsimp only at h ⊢
  set buf : Bytes nn := ⟨List.replicate (nn - input.length) 0 ++ input, by simp; omega⟩
  cases hret : (rsDecode buf locs).ret with
  | none =>
    rw [hret] at h
    cases h
  | some n =>
    rw [hret] at h
    obtain ⟨-, rfl⟩ := Prod.mk.inj (Option.some_inj.mp h)
    obtain ⟨found, rfl, hfound⟩ := rsDecode_outLocs hret
    refine ⟨found.map (· - ((nn - input.length : ℕ) : ℤ)), List.length_map _, fun l => ?_⟩
    have htake := take_overlay (found.map (· - ((nn - input.length : ℕ) : ℤ))) (overlay found l)
    rw [List.length_map] at htake
    rw [(rsDecode_locs buf (some l) locs).1, hret]
    dsimp only
    rw [hfound l, Option.map_some, Option.map_some, take_overlay]
    exact congrArg some htake

theorem isSome_rsDecode_outLocs (block : Bytes nn) (locs : Option (List ℤ)) :
    (rsDecode block locs).outLocs.isSome = locs.isSome := by
  unfold rsDecode
  dsimp only
  split_ifs
  · rfl
  · rfl
  · split
    · rfl
    · exact Option.isSome_map

theorem isSome_rsPycspDecode_outLocs (input : List UInt8) (outCap : ℕ) (locs : Option (List ℤ)) :
    (rsPycspDecode input outCap locs).outLocs.isSome = locs.isSome := by
  unfold rsPycspDecode
  split_ifs
  · rfl
  · rfl
  · dsimp only
    split
    · exact isSome_rsDecode_outLocs _ locs
    · rw [Option.isSome_map]
      exact isSome_rsDecode_outLocs _ locs

/-- The entries that count do not depend on the array. -/
theorem rsPycspDecode_outLocs_congr {input data : List UInt8} {outCap errs : ℕ} {locs locs' : Option (List ℤ)}
    (hsome : locs.isSome = locs'.isSome) (h : (rsPycspDecode input outCap locs).result = some (data, errs)) :
    (rsPycspDecode input outCap locs).outLocs.map (List.take errs) =
      (rsPycspDecode input outCap locs').outLocs.map (List.take errs) := by
  obtain ⟨found, -, hfound⟩ := rsPycspDecode_outLocs h
  cases locs with
  | none =>
    cases locs' with
    | none => rfl
    | some l' => cases hsome
  | some l =>
    cases locs' with
    | none => cases hsome
    | some l' => rw [hfound l, hfound l']

section Framer
variable (sha1 : List UInt8 → Bytes 20) (opts : Opts) (outPacketCap : ℕ) (locs locs' : Option (List ℤ))

theorem checkHmac_agree (inner : List UInt8) (rsErrors : ℤ) :
    (checkHmac sha1 opts outPacketCap inner rsErrors locs).Agree
      (checkHmac sha1 opts outPacketCap inner rsErrors locs') := by
  unfold checkHmac
  split
  · exact ⟨rfl, rfl, rfl⟩
  · dsimp only
    split_ifs <;> exact ⟨rfl, rfl, rfl⟩

theorem tryLength_agree (scrambled : List UInt8) (onWireLen : ℕ) :
    (tryLength sha1 scrambled onWireLen opts outPacketCap locs).Agree
      (tryLength sha1 scrambled onWireLen opts outPacketCap locs') := by
  unfold tryLength
  dsimp only
  split_ifs
  · exact ⟨rfl, rfl, rfl⟩
  · exact ⟨rfl, rfl, rfl⟩
  · rw [rsPycspDecode_locs _ kk locs locs']
    generalize (rsPycspDecode _ kk locs').result = result
    cases result with
    | none => exact ⟨rfl, rfl, rfl⟩
    | some decoded => exact checkHmac_agree sha1 opts outPacketCap _ _ _ _
  · exact checkHmac_agree sha1 opts outPacketCap _ _ _ _

theorem bruteForce_agree (scrambled : List UInt8) (tried : Option ℕ) (fuel : ℕ) :
    ∀ (len : ℕ) (locs locs' : Option (List ℤ)),
      (bruteForce sha1 scrambled opts outPacketCap tried fuel len locs).Agree
        (bruteForce sha1 scrambled opts outPacketCap tried fuel len locs') := by
  induction fuel with
  | zero => exact fun _ _ _ => ⟨rfl, rfl, rfl⟩
  | succ fuel ih =>
    intro len locs locs'
    unfold bruteForce
    split_ifs
    · exact ih _ _ _
    · have h := tryLength_agree sha1 opts outPacketCap locs locs' scrambled len
      dsimp only
      rw [h.packet]
      generalize (tryLength sha1 scrambled len opts outPacketCap locs').packet = packet
      cases packet with
      | none => exact ih _ _ _
      | some packet => exact h

theorem firstTry_agree (scrambled : List UInt8) (golayLen : Option ℕ) :
    (firstTry sha1 scrambled golayLen opts outPacketCap locs).Agree
      (firstTry sha1 scrambled golayLen opts outPacketCap locs') := by
  unfold firstTry
  cases golayLen with
  | none => exact ⟨rfl, rfl, rfl⟩
  | some len =>
    dsimp only
    split_ifs
    · exact tryLength_agree sha1 opts outPacketCap locs locs' scrambled len
    · exact ⟨rfl, rfl, rfl⟩

theorem unframeBlock_agree (scrambled : List UInt8) (golayLen : Option ℕ) (golayErrors : ℤ) :
    (unframeBlock sha1 scrambled golayLen golayErrors opts outPacketCap locs).Agree
      (unframeBlock sha1 scrambled golayLen golayErrors opts outPacketCap locs') := by
  have hfirst := firstTry_agree sha1 opts outPacketCap locs locs' scrambled golayLen
  unfold unframeBlock
  generalize firstTry sha1 scrambled golayLen opts outPacketCap locs = r at *
  generalize firstTry sha1 scrambled golayLen opts outPacketCap locs' = r' at *
  dsimp only
  rw [hfirst.packet]
  cases r'.packet with
  | some packet => exact ⟨rfl, rfl, rfl, hfirst.hmacOk, hfirst.rsErrors, rfl⟩
  | none =>
    dsimp only
    split_ifs
    · have hretry : (retryLengths sha1 scrambled golayLen opts outPacketCap r.rsLocs).Agree
          (retryLengths sha1 scrambled golayLen opts outPacketCap r'.rsLocs) :=
        bruteForce_agree sha1 opts outPacketCap scrambled golayLen _ _ _ _
      generalize retryLengths sha1 scrambled golayLen opts outPacketCap r.rsLocs = s at *
      generalize retryLengths sha1 scrambled golayLen opts outPacketCap r'.rsLocs = s' at *
      rw [hretry.packet]
      cases s'.packet with
      | some packet => exact ⟨rfl, rfl, rfl, hretry.hmacOk, hretry.rsErrors, rfl⟩
      | none => exact ⟨rfl, rfl, rfl, hfirst.hmacOk, hfirst.rsErrors, rfl⟩
    · exact ⟨rfl, rfl, rfl, hfirst.hmacOk, hfirst.rsErrors, rfl⟩

/-- **The array is output only.** -/
theorem unframe_agree (bytes : List UInt8) :
    (unframe sha1 bytes opts outPacketCap locs).Agree (unframe sha1 bytes opts outPacketCap locs') := by
  unfold unframe
  generalize (if opts.syncword then bytes.drop 4 else bytes) = rest
  dsimp only
  split_ifs
  · exact ⟨rfl, rfl, rfl, rfl, rfl, rfl⟩
  · exact ⟨rfl, rfl, rfl, rfl, rfl, rfl⟩
  · exact unframeBlock_agree sha1 opts outPacketCap locs locs' _ _ _
  · exact unframeBlock_agree sha1 opts outPacketCap locs locs' _ _ _

end Framer

end SimpleSatOps.Ax100
