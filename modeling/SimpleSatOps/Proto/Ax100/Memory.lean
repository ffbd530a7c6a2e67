import SimpleSatOps.Lib.Run
import SimpleSatOps.Proto.Ax100.Channel
import SimpleSatOps.Proto.Ax100.Locs

/-!
# The framer's buffers (`ax100_unframe`)

The receiving side once more, over the caller's buffers: every read of the input and every write of the packet buffer is
an access that may fail.

* `tryLengthRun`, `bruteForceRun`, `unframeRun` : the functions over the buffers;
* `unframeRun_eq` : no access fails, and the outcome is that of `unframe`, whatever the packet buffer held;
* `golayLenOf`, `unframe_eq` : what the sync word and the length field say, before any attempt;
* `Searched` : a length whose block decodes and whose trailer matches, and what is to be reported of it;
* `unframe_hygiene` : what is left in the packet buffer, and where a result of the length search comes from.
-/

namespace SimpleSatOps.Ax100
open Rs Golay24

/-- What one attempt leaves: the packet length (`none` for `-1`), the packet buffer and the temporaries. -/
structure Attempt where
  ret : Option ℕ
  outPacket : List UInt8
  hmacOk : ℤ
  rsErrors : ℤ
  rsLocs : Option (List ℤ)

section Framer
variable (sha1 : List UInt8 → Bytes 20)

/-- The HMAC check of `ax100_try_length` on the `inner` buffer, and the copy to the packet buffer. -/
def checkHmacRun (opts : Opts) (inner outPacket : List UInt8) (rsErrors : ℤ) (rsLocs : Option (List ℤ)) :
    Run Attempt :=
  match opts.hmacKey with
  | none =>
    if inner.length > outPacket.length then pure ⟨none, outPacket, -1, rsErrors, rsLocs⟩
    else do
      let outPacket ← copyInto outPacket inner inner.length
      pure ⟨some inner.length, outPacket, -1, rsErrors, rsLocs⟩
  | some key =>
    if inner.length < 4 then pure ⟨none, outPacket, -1, rsErrors, rsLocs⟩
    else do
      let packetLen := inner.length - 4
      let data ← rdRange inner 0 packetLen
      let trailer ← rdRange inner packetLen 4
      if hmac sha1 key data ≠ trailer then pure ⟨none, outPacket, 0, rsErrors, rsLocs⟩
      else if packetLen > outPacket.length then pure ⟨none, outPacket, 1, rsErrors, rsLocs⟩
      else do
        let outPacket ← copyInto outPacket inner packetLen
        pure ⟨some packetLen, outPacket, 1, rsErrors, rsLocs⟩

/-- `ax100_try_length` at `bytes + off`. -/
def tryLengthRun (bytes : List UInt8) (off onWireLen : ℕ) (opts : Opts) (outPacket : List UInt8)
    (rsLocs : Option (List ℤ)) : Run Attempt :=
  if onWireLen > innerCap then pure ⟨none, outPacket, -1, -1, rsLocs⟩
  else do
    let scrambled ← rdRange bytes off onWireLen
    let inner := onWire opts scrambled
    if opts.reedSolomon then
      if onWireLen ≤ nroots ∨ onWireLen > nn then pure ⟨none, outPacket, -1, -1, rsLocs⟩
      else
        let decoded := rsPycspDecode inner kk rsLocs
        match decoded.result with
        | none => pure ⟨none, outPacket, -1, -1, decoded.outLocs⟩
        | some (data, errs) => checkHmacRun sha1 opts data outPacket errs decoded.outLocs
    else checkHmacRun sha1 opts inner outPacket (-1) rsLocs

/-- The length search, as `bruteForce`. -/
def bruteForceRun (bytes : List UInt8) (off : ℕ) (opts : Opts) (tried : Option ℕ) :
    ℕ → ℕ → List UInt8 → Option (List ℤ) → Run Attempt
  | 0, _, outPacket, rsLocs => pure ⟨none, outPacket, -1, -1, rsLocs⟩
  | fuel + 1, len, outPacket, rsLocs =>
    if tried = some len then bruteForceRun bytes off opts tried fuel (len + 1) outPacket rsLocs
    else do
      let r ← tryLengthRun sha1 bytes off len opts outPacket rsLocs
      match r.ret with
      | some _ => pure r
      | none => bruteForceRun bytes off opts tried fuel (len + 1) r.outPacket r.rsLocs

/-- The attempt at the decoded length, if it is sensible. -/
def firstTryRun (bytes : List UInt8) (off : ℕ) (golayLen : Option ℕ) (opts : Opts) (outPacket : List UInt8)
    (rsLocs : Option (List ℤ)) : Run Attempt :=
  match golayLen with
  | some len =>
    if 0 < len ∧ len ≤ bytes.length - off then tryLengthRun sha1 bytes off len opts outPacket rsLocs
    else pure ⟨none, outPacket, -1, -1, rsLocs⟩
  | none => pure ⟨none, outPacket, -1, -1, rsLocs⟩

/-- The attempts once the length field is decoded. -/
def unframeBlockRun (bytes : List UInt8) (off : ℕ) (golayLen : Option ℕ) (golayErrors : ℤ) (opts : Opts)
    (outPacket : List UInt8) (rsLocs : Option (List ℤ)) : Run Unframed := do
  let first ← firstTryRun sha1 bytes off golayLen opts outPacket rsLocs
  match first.ret with
  | some r => pure ⟨some r, first.outPacket, golayErrors, first.hmacOk, first.rsErrors, 1, first.rsLocs⟩
  | none =>
    if opts.reedSolomon ∧ opts.hmacKey.isSome then
      let lo := nroots + 1
      let hi := min (bytes.length - off) nn
      let r ← bruteForceRun sha1 bytes off opts golayLen (hi + 1 - lo) lo first.outPacket first.rsLocs
      match r.ret with
      | some len => pure ⟨some len, r.outPacket, golayErrors, r.hmacOk, r.rsErrors, 0, r.rsLocs⟩
      | none => pure ⟨none, r.outPacket, golayErrors, first.hmacOk, first.rsErrors, -1, r.rsLocs⟩
    else pure ⟨none, first.outPacket, golayErrors, first.hmacOk, first.rsErrors, -1, first.rsLocs⟩

/-- Behind the sync word. -/
def unframeTailRun (bytes : List UInt8) (off : ℕ) (opts : Opts) (outPacket : List UInt8)
    (rsLocs : Option (List ℤ)) : Run Unframed :=
  if opts.lenField then
    if bytes.length - off < 3 then pure ⟨none, outPacket, 0, -1, -1, -1, rsLocs⟩
    else do
      let header ← rdRange bytes off 3
      let decoded := golay24Decode (headerWord header)
      unframeBlockRun sha1 bytes (off + 3) decoded.1 decoded.2 opts outPacket rsLocs
  else unframeBlockRun sha1 bytes off (some (bytes.length - off)) 0 opts outPacket rsLocs

/-- `ax100_unframe` over the caller's buffers; `outPacket` is what the packet buffer held before. -/
def unframeRun (bytes : List UInt8) (opts : Opts) (outPacket : List UInt8) (rsLocs : Option (List ℤ)) :
    Run Unframed :=
  let outPacket := List.replicate outPacket.length 0
  if opts.syncword then
    if bytes.length < 4 then pure ⟨none, outPacket, 0, -1, -1, -1, rsLocs⟩
    else do
      let sync ← rdRange bytes 0 4
      if sync ≠ asm then pure ⟨none, outPacket, 0, -1, -1, -1, rsLocs⟩
      else unframeTailRun sha1 bytes 4 opts outPacket rsLocs
  else unframeTailRun sha1 bytes 0 opts outPacket rsLocs

/-! ## No access fails -/

/-- An attempt over a packet buffer, by the attempt alone. -/
def Attempt.over (outPacket : List UInt8) (r : Tried) : Attempt where
  ret := r.packet.map List.length
  outPacket := r.packet.elim outPacket (overlay · outPacket)
  hmacOk := r.hmacOk
  rsErrors := r.rsErrors
  rsLocs := r.rsLocs

theorem checkHmacRun_eq (opts : Opts) (inner outPacket : List UInt8) (rsErrors : ℤ) (rsLocs : Option (List ℤ)) :
    checkHmacRun sha1 opts inner outPacket rsErrors rsLocs =
      .ok (.over outPacket (checkHmac sha1 opts outPacket.length inner rsErrors rsLocs)) := by
  unfold checkHmacRun checkHmac
  cases opts.hmacKey with
  | none =>
    dsimp only
    split_ifs with hcap
    · rfl
    · rw [copyInto_of_le (by omega) le_rfl, List.take_length]
      rfl
  | some key =>
    dsimp only
    by_cases hshort : inner.length < 4
    · rw [if_pos hshort, if_pos hshort]
      rfl
    have hlen : (inner.take (inner.length - 4)).length = inner.length - 4 := List.length_take_of_le (by omega)
    have htrailer : slice inner (inner.length - 4) 4 = inner.drop (inner.length - 4) := by
      unfold slice
      rw [List.take_of_length_le]
      rw [List.length_drop]
      omega
    rw [if_neg hshort, if_neg hshort, rdRange_of_le (by omega), rdRange_of_le (by omega), htrailer]
    show ite _ _ _ = _
    rw [slice, List.drop_zero]
    by_cases hbad : hmac sha1 key (inner.take (inner.length - 4)) ≠ inner.drop (inner.length - 4)
    · rw [if_pos hbad, if_pos hbad]
      rfl
    rw [if_neg hbad, if_neg hbad, hlen]
    by_cases hcap : inner.length - 4 > outPacket.length
    · rw [if_pos hcap, if_pos hcap]
      rfl
    rw [if_neg hcap, if_neg hcap, copyInto_of_le (by omega) (by omega)]
    have hlen' : some (inner.take (inner.length - 4)).length = some (inner.length - 4) := congrArg some hlen
    exact congrArg (fun ret => Except.ok (Attempt.mk ret _ _ _ _)) hlen'.symm

theorem tryLengthRun_eq {bytes : List UInt8} {off len : ℕ} (h : off + len ≤ bytes.length) (opts : Opts)
    (outPacket : List UInt8) (rsLocs : Option (List ℤ)) : tryLengthRun sha1 bytes off len opts outPacket rsLocs =
      .ok (.over outPacket (tryLength sha1 (bytes.drop off) len opts outPacket.length rsLocs)) := by
  unfold tryLengthRun tryLength
  by_cases hlong : len > innerCap
  · rw [if_pos hlong, if_pos hlong]
    rfl
  rw [if_neg hlong, if_neg hlong, rdRange_of_le h]
  change (if opts.reedSolomon then _ else _) = _
  dsimp only
  rw [slice]
  by_cases hrs : opts.reedSolomon
  · rw [if_pos hrs, if_pos hrs]
    by_cases hrange : len ≤ nroots ∨ len > nn
    · rw [if_pos hrange, if_pos hrange]
      rfl
    rw [if_neg hrange, if_neg hrange]
    cases (rsPycspDecode (onWire opts ((bytes.drop off).take len)) kk rsLocs).result with
    | none => rfl
    | some decoded => exact checkHmacRun_eq sha1 opts _ outPacket _ _
  · rw [if_neg hrs, if_neg hrs]
    exact checkHmacRun_eq sha1 opts _ outPacket _ _

theorem bruteForceRun_eq {bytes : List UInt8} {off : ℕ} (opts : Opts) (tried : Option ℕ) (outPacket : List UInt8)
    (fuel : ℕ) : ∀ (len : ℕ) (rsLocs : Option (List ℤ)), (fuel ≠ 0 → off + len + (fuel - 1) ≤ bytes.length) →
      bruteForceRun sha1 bytes off opts tried fuel len outPacket rsLocs =
        .ok (.over outPacket (bruteForce sha1 (bytes.drop off) opts outPacket.length tried fuel len rsLocs)) := by
  induction fuel with
  | zero => exact fun _ _ _ => rfl
  | succ fuel ih =>
    intro len rsLocs h
    have hlen := h (Nat.succ_ne_zero fuel)
    unfold bruteForceRun bruteForce
    split_ifs
    · exact ih (len + 1) rsLocs fun hfuel => by omega
    · rw [tryLengthRun_eq sha1 (by omega)]
      dsimp only
      generalize tryLength sha1 (bytes.drop off) len opts outPacket.length rsLocs = r
      obtain ⟨packet, hmacOk, rsErrors, locs⟩ := r
      cases packet with
      | none => exact ih (len + 1) locs fun hfuel => by omega
      | some packet => rfl

/-- An attempt that fails leaves the packet buffer as it was. -/
theorem Attempt.over_none {outPacket : List UInt8} {r : Tried} (h : r.packet = none) :
    (Attempt.over outPacket r).outPacket = outPacket := by
  rw [Attempt.over, h]
  rfl

theorem firstTryRun_eq {bytes : List UInt8} {off : ℕ} (hoff : off ≤ bytes.length) (golayLen : Option ℕ) (opts : Opts)
    (outPacket : List UInt8) (rsLocs : Option (List ℤ)) : firstTryRun sha1 bytes off golayLen opts outPacket rsLocs =
      .ok (.over outPacket (firstTry sha1 (bytes.drop off) golayLen opts outPacket.length rsLocs)) := by
  unfold firstTryRun firstTry
  cases golayLen with
  | none => rfl
  | some len =>
    dsimp only
    rw [List.length_drop]
    split_ifs with h
    · exact tryLengthRun_eq sha1 (by omega) opts outPacket rsLocs
    · rfl

theorem unframeBlockRun_eq {bytes : List UInt8} {off : ℕ} (hoff : off ≤ bytes.length) (golayLen : Option ℕ)
    (golayErrors : ℤ) (opts : Opts) (cap : ℕ) (rsLocs : Option (List ℤ)) :
    unframeBlockRun sha1 bytes off golayLen golayErrors opts (List.replicate cap 0) rsLocs =
      .ok (unframeBlock sha1 (bytes.drop off) golayLen golayErrors opts cap rsLocs) := by
  unfold unframeBlockRun unframeBlock
  rw [firstTryRun_eq sha1 hoff, List.length_replicate]
  generalize firstTry sha1 (bytes.drop off) golayLen opts cap rsLocs = first
  obtain ⟨packet, hmacOk, rsErrors, locs⟩ := first
  cases packet with
  | some packet => rfl
  | none =>
    change (if opts.reedSolomon ∧ opts.hmacKey.isSome then _ else _) = _
    dsimp only [Attempt.over, Option.elim_none]
    split_ifs with hsearch
    · have hlast : min (bytes.length - off) nn + 1 - (nroots + 1) ≠ 0 →
          off + (nroots + 1) + (min (bytes.length - off) nn + 1 - (nroots + 1) - 1) ≤ bytes.length := by omega
      rw [bruteForceRun_eq sha1 opts golayLen _ _ _ locs hlast, List.length_replicate]
      unfold retryLengths
      rw [List.length_drop]
      dsimp only
      generalize bruteForce sha1 (bytes.drop off) opts cap golayLen _ _ locs = r
      obtain ⟨packet, hmacOk', rsErrors', locs'⟩ := r
      cases packet <;> rfl
    · rfl

theorem unframeTailRun_eq {bytes : List UInt8} {off : ℕ} (hoff : off ≤ bytes.length) (opts : Opts) (cap : ℕ)
    (rsLocs : Option (List ℤ)) : unframeTailRun sha1 bytes off opts (List.replicate cap 0) rsLocs =
      .ok (if opts.lenField then
          if (bytes.drop off).length < 3 then .reject cap 0 (-1) (-1) rsLocs
          else unframeBlock sha1 ((bytes.drop off).drop 3) (golay24Decode (headerWord (bytes.drop off))).1
            (golay24Decode (headerWord (bytes.drop off))).2 opts cap rsLocs
        else unframeBlock sha1 (bytes.drop off) (some (bytes.drop off).length) 0 opts cap rsLocs) := by
  unfold unframeTailRun
  rw [List.length_drop]
  split_ifs with hfield hshort
  · rfl
  · have hheader : headerWord (slice bytes off 3) = headerWord (bytes.drop off) := by
      have hlen : ((bytes.drop off).take 3).length = 3 := by
        rw [List.length_take, List.length_drop]
        omega
      have hword := headerWord_append hlen ((bytes.drop off).drop 3)
      rw [List.take_append_drop] at hword
      exact hword.symm
    rw [rdRange_of_le (by omega), ok_bind, List.drop_drop, ← hheader]
    exact unframeBlockRun_eq sha1 (by omega) _ _ opts cap rsLocs
  · exact unframeBlockRun_eq sha1 hoff _ _ opts cap rsLocs

/-- **No access fails**: `ax100_unframe` reads inside the input and writes inside the packet buffer, and what the
packet buffer held before does not matter. -/
theorem unframeRun_eq (bytes : List UInt8) (opts : Opts) (outPacket : List UInt8) (rsLocs : Option (List ℤ)) :
    unframeRun sha1 bytes opts outPacket rsLocs = .ok (unframe sha1 bytes opts outPacket.length rsLocs) := by
  unfold unframeRun unframe
  dsimp only
  by_cases hsync : opts.syncword = true
  · simp only [hsync, true_and, if_true]
    by_cases hshort : bytes.length < 4
    · have hne : bytes.take 4 ≠ asm := by
        intro h
        have hlen := congrArg List.length h
        rw [List.length_take] at hlen
        have hasm : asm.length = 4 := rfl
        omega
      rw [if_pos hshort, if_pos hne]
      rfl
    rw [if_neg hshort, rdRange_of_le (by omega)]
    change (if bytes.take 4 ≠ asm then _ else _) = _
    by_cases hne : bytes.take 4 ≠ asm
    · rw [if_pos hne, if_pos hne]
      rfl
    · rw [if_neg hne, if_neg hne]
      exact unframeTailRun_eq sha1 (by omega) opts outPacket.length rsLocs
  · rw [if_neg hsync, if_neg fun h => hsync h.1, if_neg hsync]
    exact unframeTailRun_eq sha1 (Nat.zero_le _) opts outPacket.length rsLocs

/-! ## What is returned -/

/-- What follows the sync word and the length field. -/
def payload (opts : Opts) (bytes : List UInt8) : List UInt8 :=
  bytes.drop ((if opts.syncword then 4 else 0) + if opts.lenField then 3 else 0)

/-- The length that is tried first, if there is one, and the bit errors of its header; `none` when the receiver gives up
before. Without a length field everything is the block, and no error is counted. -/
def golayLenOf (opts : Opts) (bytes : List UInt8) : Option (Option ℕ × ℤ) :=
  if opts.syncword ∧ bytes.take 4 ≠ asm then none
  else
    let rest := if opts.syncword then bytes.drop 4 else bytes
    if opts.lenField then
      if rest.length < 3 then none
      else
        let (len, errs) := golay24Decode (headerWord rest)
        some (len, errs)
    else some (some rest.length, 0)

/-- A length whose block decodes to `data` with `errs` errors and whose trailer matches, and what is reported of it. -/
structure Searched (opts : Opts) (key block : List UInt8) (rsLocs : Option (List ℤ)) (len : ℕ) (data : List UInt8)
    (errs : ℕ) (packet : List UInt8) (r : Tried) : Prop where
  lo : nroots < len
  hi : len ≤ nn
  avail : len ≤ block.length
  decodes : (rsPycspDecode (onWire opts (block.take len)) kk rsLocs).result = some (data, errs)
  long : 4 ≤ data.length
  packet_eq : packet = data.take (data.length - 4)
  trailer : hmac sha1 key packet = data.drop (data.length - 4)
  hmacOk : r.hmacOk = 1
  rsErrors : r.rsErrors = errs
  rsLocs : r.rsLocs.map (List.take errs) =
    (rsPycspDecode (onWire opts (block.take len)) kk rsLocs).outLocs.map (List.take errs)

variable {sha1}

theorem checkHmac_some {opts : Opts} {cap : ℕ} {inner packet : List UInt8} {rsErrors : ℤ} {rsLocs : Option (List ℤ)}
    (h : (checkHmac sha1 opts cap inner rsErrors rsLocs).packet = some packet) : packet.length ≤ cap := by
  unfold checkHmac at h
  split at h
  · dsimp only at h
    split_ifs at h with hcap
    obtain rfl := Option.some_inj.mp h
    exact Nat.not_lt.mp hcap
  · dsimp only at h
    split_ifs at h with hshort hbad hcap
    obtain rfl := Option.some_inj.mp h
    exact Nat.not_lt.mp hcap

theorem tryLength_some {opts : Opts} {cap len : ℕ} {block packet : List UInt8} {rsLocs : Option (List ℤ)}
    (h : (tryLength sha1 block len opts cap rsLocs).packet = some packet) : packet.length ≤ cap := by
  unfold tryLength at h
  dsimp only at h
  split_ifs at h with hlong hrs hrange
  · cases hdecode : (rsPycspDecode (onWire opts (block.take len)) kk rsLocs).result with
    | none =>
      rw [hdecode] at h
      cases h
    | some decoded =>
      rw [hdecode] at h
      exact checkHmac_some h
  · exact checkHmac_some h

theorem isSome_checkHmac_rsLocs (opts : Opts) (cap : ℕ) (inner : List UInt8) (rsErrors : ℤ)
    (rsLocs : Option (List ℤ)) : (checkHmac sha1 opts cap inner rsErrors rsLocs).rsLocs = rsLocs := by
  unfold checkHmac
  split
  · rfl
  · dsimp only
    split_ifs <;> rfl

/-- An attempt keeps the array, or keeps having none. -/
theorem isSome_tryLength_rsLocs (block : List UInt8) (len : ℕ) (opts : Opts) (cap : ℕ) (rsLocs : Option (List ℤ)) :
    (tryLength sha1 block len opts cap rsLocs).rsLocs.isSome = rsLocs.isSome := by
  have hdecoded := isSome_rsPycspDecode_outLocs (onWire opts (block.take len)) kk rsLocs
  unfold tryLength
  dsimp only
  split_ifs
  · rfl
  · rfl
  · split
    · exact hdecoded
    · rw [isSome_checkHmac_rsLocs]
      exact hdecoded
  · rw [isSome_checkHmac_rsLocs]

/-- An accepted attempt with Reed-Solomon and a key. -/
theorem tryLength_searched {opts : Opts} {key block packet : List UInt8} {cap len : ℕ} {rsLocs locs : Option (List ℤ)}
    (hrs : opts.reedSolomon = true) (hkey : opts.hmacKey = some key) (havail : len ≤ block.length)
    (hlocs : locs.isSome = rsLocs.isSome) (h : (tryLength sha1 block len opts cap locs).packet = some packet) :
    ∃ data errs, Searched sha1 opts key block rsLocs len data errs packet (tryLength sha1 block len opts cap locs) := by
  unfold tryLength at h ⊢
  dsimp only at h ⊢
  rw [if_pos hrs] at h ⊢
  split_ifs at h ⊢ with hlong hrange
  cases hdecode : (rsPycspDecode (onWire opts (block.take len)) kk locs).result with
  | none =>
    rw [hdecode] at h
    cases h
  | some decoded =>
    obtain ⟨data, errs⟩ := decoded
    rw [hdecode] at h
    dsimp only at h ⊢
    unfold checkHmac at h ⊢
    rw [hkey] at h ⊢
    dsimp only at h ⊢
    split_ifs at h ⊢ with hshort hbad hcap
    have hcongr := rsPycspDecode_outLocs_congr hlocs hdecode
    rw [rsPycspDecode_locs _ _ locs rsLocs] at hdecode
    exact ⟨data, errs, by omega, by omega, havail, hdecode, by omega, (Option.some_inj.mp h).symm,
      Option.some_inj.mp h ▸ not_not.mp hbad, rfl, rfl, hcongr⟩

/-- The length search returns an accepted attempt. -/
theorem bruteForce_some {opts : Opts} {block packet : List UInt8} {cap : ℕ} {tried : Option ℕ} (fuel : ℕ) :
    ∀ (len : ℕ) (rsLocs : Option (List ℤ)),
      (bruteForce sha1 block opts cap tried fuel len rsLocs).packet = some packet →
      ∃ L locs, len ≤ L ∧ L < len + fuel ∧ locs.isSome = rsLocs.isSome ∧
        bruteForce sha1 block opts cap tried fuel len rsLocs = tryLength sha1 block L opts cap locs := by
  induction fuel with
  | zero =>
    intro len rsLocs h
    cases h
  | succ fuel ih =>
    intro len rsLocs h
    unfold bruteForce at h ⊢
    dsimp only at h ⊢
    split_ifs at h ⊢
    · obtain ⟨L, locs, hlo, hhi, hsome, heq⟩ := ih (len + 1) rsLocs h
      exact ⟨L, locs, by omega, by omega, hsome, heq⟩
    · cases hpacket : (tryLength sha1 block len opts cap rsLocs).packet with
      | some p => exact ⟨len, rsLocs, le_rfl, by omega, rfl, rfl⟩
      | none =>
        rw [hpacket] at h
        obtain ⟨L, locs, hlo, hhi, hsome, heq⟩ := ih (len + 1) _ h
        exact ⟨L, locs, by omega, by omega, hsome.trans (isSome_tryLength_rsLocs block len opts cap rsLocs), heq⟩

variable (sha1) in
/-- A result of the length search. -/
def FromSearch (opts : Opts) (block : List UInt8) (rsLocs : Option (List ℤ)) (packet : List UInt8) (r : Tried) : Prop :=
  opts.reedSolomon = true ∧ ∃ key len data errs, opts.hmacKey = some key ∧
    Searched sha1 opts key block rsLocs len data errs packet r

theorem unframeBlock_cases (block : List UInt8) (golayLen : Option ℕ) (golayErrors : ℤ) (opts : Opts) (cap : ℕ)
    (rsLocs : Option (List ℤ)) :
    (∃ packet used r, packet.length ≤ cap ∧ (used = 1 ∨ used = 0 ∧ FromSearch sha1 opts block rsLocs packet r) ∧
      unframeBlock sha1 block golayLen golayErrors opts cap rsLocs = .accept cap packet golayErrors used r) ∨
    ∃ hmacOk rsErrors locs,
      unframeBlock sha1 block golayLen golayErrors opts cap rsLocs = .reject cap golayErrors hmacOk rsErrors locs := by
  unfold unframeBlock
  dsimp only
  have hfirst : (firstTry sha1 block golayLen opts cap rsLocs).rsLocs.isSome = rsLocs.isSome ∧
      ∀ packet, (firstTry sha1 block golayLen opts cap rsLocs).packet = some packet → packet.length ≤ cap := by
    unfold firstTry
    cases golayLen with
    | none => exact ⟨rfl, fun _ h => by cases h⟩
    | some len =>
      dsimp only
      split_ifs
      · exact ⟨isSome_tryLength_rsLocs block len opts cap rsLocs, fun _ h => tryLength_some h⟩
      · exact ⟨rfl, fun _ h => by cases h⟩
  generalize firstTry sha1 block golayLen opts cap rsLocs = first at hfirst ⊢
  cases hpacket : first.packet with
  | some packet => exact Or.inl ⟨packet, 1, first, hfirst.2 packet hpacket, Or.inl rfl, rfl⟩
  | none =>
    dsimp only
    split_ifs with hsearch
    · obtain ⟨hrs, hkeyed⟩ := hsearch
      obtain ⟨key, hkey⟩ := Option.isSome_iff_exists.mp hkeyed
      cases hretry : (retryLengths sha1 block golayLen opts cap first.rsLocs).packet with
      | none => exact Or.inr ⟨_, _, _, rfl⟩
      | some packet =>
        obtain ⟨L, locs, hlo, hhi, hlocs, heq⟩ := bruteForce_some _ _ _ hretry
        have hpacket' : (tryLength sha1 block L opts cap locs).packet = some packet := heq ▸ hretry
        obtain ⟨data, errs, hsearched⟩ :=
          tryLength_searched hrs hkey (by omega) (hlocs.trans hfirst.1) hpacket'
        refine Or.inl ⟨packet, 0, tryLength sha1 block L opts cap locs, tryLength_some hpacket',
          Or.inr ⟨rfl, hrs, key, L, data, errs, hkey, hsearched⟩, ?_⟩
        exact congrArg (Unframed.accept cap packet golayErrors 0) heq
    · exact Or.inr ⟨_, _, _, rfl⟩

/-- Past the sync word and the length field the receiver works on the payload. -/
theorem unframe_eq (bytes : List UInt8) (opts : Opts) (cap : ℕ) (rsLocs : Option (List ℤ)) :
    unframe sha1 bytes opts cap rsLocs =
      match golayLenOf opts bytes with
      | none => .reject cap 0 (-1) (-1) rsLocs
      | some (len, errs) => unframeBlock sha1 (payload opts bytes) len errs opts cap rsLocs := by
  have hpayload : payload opts bytes =
      if opts.lenField then (if opts.syncword then bytes.drop 4 else bytes).drop 3
      else if opts.syncword then bytes.drop 4 else bytes := by
    unfold payload
    cases opts.syncword <;> cases opts.lenField <;> simp
  unfold unframe golayLenOf
  dsimp only
  by_cases hsync : opts.syncword ∧ bytes.take 4 ≠ asm
  · rw [if_pos hsync, if_pos hsync]
  rw [if_neg hsync, if_neg hsync]
  by_cases hfield : opts.lenField = true
  · rw [if_pos hfield, if_pos hfield]
    rw [if_pos hfield] at hpayload
    by_cases hshort : (if opts.syncword then bytes.drop 4 else bytes).length < 3
    · rw [if_pos hshort, if_pos hshort]
    · rw [if_neg hshort, if_neg hshort, hpayload]
  · rw [if_neg hfield, if_neg hfield]
    rw [if_neg hfield] at hpayload
    rw [hpayload]

/-- Past the sync word the header is read. -/
theorem golayLenOf_asm {opts : Opts} {header : List UInt8} (hlenField : opts.lenField = true)
    (hsync : opts.syncword = true) (hheader : header.length = 3) (rest : List UInt8) :
    golayLenOf opts (asm ++ (header ++ rest)) =
      some ((golay24Decode (headerWord header)).1, ((golay24Decode (headerWord header)).2 : ℤ)) := by
  have htake : (asm ++ (header ++ rest)).take 4 = asm := @List.take_left _ asm _
  have hdrop : (asm ++ (header ++ rest)).drop 4 = header ++ rest := @List.drop_left _ asm _
  rw [golayLenOf, if_neg (fun hne => hne.2 htake), hdrop, if_pos hsync, if_pos hlenField,
    if_neg (by rw [List.length_append]; omega), headerWord_append hheader]

theorem unframe_cases (bytes : List UInt8) (opts : Opts) (cap : ℕ) (rsLocs : Option (List ℤ)) :
    (∃ packet golayErrors used r, packet.length ≤ cap ∧
      (used = 1 ∨ used = 0 ∧ FromSearch sha1 opts (payload opts bytes) rsLocs packet r) ∧
      unframe sha1 bytes opts cap rsLocs = .accept cap packet golayErrors used r) ∨
    ∃ golayErrors hmacOk rsErrors locs,
      unframe sha1 bytes opts cap rsLocs = .reject cap golayErrors hmacOk rsErrors locs := by
  rw [unframe_eq]
  cases golayLenOf opts bytes with
  | none => exact Or.inr ⟨_, _, _, _, rfl⟩
  | some field =>
    obtain ⟨golayLen, golayErrors⟩ := field
    dsimp only
    rcases unframeBlock_cases (payload opts bytes) golayLen golayErrors opts cap rsLocs with
      ⟨packet, used, r, hcap, hused, heq⟩ | ⟨hmacOk, rsErrors, locs, heq⟩
    · exact Or.inl ⟨packet, golayErrors, used, r, hcap, hused, heq⟩
    · exact Or.inr ⟨golayErrors, hmacOk, rsErrors, locs, heq⟩

variable (sha1) in
/-- **Output hygiene**: no access leaves a buffer; on failure the whole packet buffer is zero, on success every byte
behind the packet is; and a result of the length search is one of a length whose block decodes and whose trailer
matches, with its own count and locations. -/
theorem unframe_hygiene (bytes : List UInt8) (opts : Opts) (outPacket : List UInt8) (rsLocs : Option (List ℤ)) :
    Runs (unframeRun sha1 bytes opts outPacket rsLocs) fun u =>
      u.outPacket.length = outPacket.length ∧
      (u.ret = none → u.outPacket = List.replicate outPacket.length 0) ∧
      (∀ n, u.ret = some n → n ≤ outPacket.length ∧
        u.outPacket.drop n = List.replicate (outPacket.length - n) 0) ∧
      (u.usedGolayLen = 0 → opts.reedSolomon = true ∧ ∃ key len data errs, opts.hmacKey = some key ∧
        nroots < len ∧ len ≤ nn ∧ len ≤ (payload opts bytes).length ∧
        (rsPycspDecode (onWire opts ((payload opts bytes).take len)) kk rsLocs).result = some (data, errs) ∧
        4 ≤ data.length ∧
        hmac sha1 key (data.take (data.length - 4)) = data.drop (data.length - 4) ∧
        u.ret = some (data.length - 4) ∧ u.outPacket.take (data.length - 4) = data.take (data.length - 4) ∧
        u.hmacOk = 1 ∧ u.rsErrors = errs ∧
        u.rsLocs.map (List.take errs) =
          (rsPycspDecode (onWire opts ((payload opts bytes).take len)) kk rsLocs).outLocs.map (List.take errs)) := by
  rw [unframeRun_eq]
  refine Runs.pure ?_
  have hzeros : (List.replicate outPacket.length (0 : UInt8)).length = outPacket.length := List.length_replicate
  rcases unframe_cases bytes opts outPacket.length rsLocs with
    ⟨packet, golayErrors, used, r, hcap, hused, heq⟩ | ⟨golayErrors, hmacOk, rsErrors, locs, heq⟩
  · rw [heq]
    refine ⟨?_, fun h => absurd h (Option.some_ne_none _), fun n hn => ?_, fun hzero => ?_⟩
    · exact (length_overlay (by rw [hzeros]; exact hcap)).trans hzeros
    · obtain rfl := Option.some_inj.mp hn
      refine ⟨hcap, ?_⟩
      show (packet ++ (List.replicate outPacket.length 0).drop packet.length).drop packet.length = _
      rw [List.drop_left, List.drop_replicate]
    · have hsearch := (hused.resolve_left fun h => absurd (h.symm.trans hzero) (by decide)).2
      obtain ⟨hrs, key, len, data, errs, hkey, hs⟩ := hsearch
      have hlen : packet.length = data.length - 4 := by
        rw [hs.packet_eq, List.length_take]
        omega
      refine ⟨hrs, key, len, data, errs, hkey, hs.lo, hs.hi, hs.avail, hs.decodes, hs.long,
        hs.packet_eq ▸ hs.trailer, congrArg some hlen, ?_, hs.hmacOk, hs.rsErrors, hs.rsLocs⟩
      show (overlay packet _).take _ = _
      rw [← hlen, take_overlay, hlen]
      exact hs.packet_eq
  · rw [heq]
    have hused : (-1 : ℤ) ≠ 0 := by decide
    exact ⟨hzeros, fun _ => rfl, fun n hn => absurd hn.symm (Option.some_ne_none n), fun hzero => absurd hzero hused⟩

end Framer

end SimpleSatOps.Ax100
