import SimpleSatOps.Pipeline.DecodeLoop

/-!
# Sync tolerance, end to end

The search accepts a sync word with flipped bits; the unframer compares it exactly.

* `unframeWithRescue_flipped`, `unframeWithRescue_empty` : frames that unframing refuses;
* `tried_isolated` : a frame away from other matches is what the search tries;
* `tolerance_iff` : such a frame is returned exactly when no bit of its sync word is flipped.
-/

namespace SimpleSatOps.DecodeLoop
open Rs Golay24 Ax100 ModemIq AsmSearch FirstMin

section Tolerance
variable (sha1 : List UInt8 → Bytes 20)

/-! ## Unframing -/

theorem unframe_of_not_asm {opts : Opts} (hsync : opts.syncword = true) {bytes : List UInt8} (h : bytes.take 4 ≠ asm)
    (packetCap : ℕ) (rsLocs : Option (List ℤ)) :
    unframe sha1 bytes opts packetCap rsLocs = .reject packetCap 0 (-1) (-1) rsLocs := by
  unfold unframe
  exact if_pos ⟨hsync, h⟩

/-- The retry checks the sync word again. -/
theorem unframeWithRescue_flipped {opts : Opts} (hsync : opts.syncword = true) {bytes : List UInt8}
    (h : bytes.take 4 ≠ asm) (allowPartialRs : Bool) (packetCap : ℕ) (rsLocs : Option (List ℤ)) :
    (unframeWithRescue sha1 bytes opts allowPartialRs packetCap rsLocs).ret = none := by
  have hpart := @unframe_of_not_asm sha1 { opts with reedSolomon := false } hsync bytes h packetCap none
  unfold unframeWithRescue
  rw [unframe_of_not_asm sha1 hsync h, hpart]
  dsimp only [Unframed.reject]
  split_ifs <;> rfl

section Empty
variable {opts : Opts} {inner : List UInt8} {packetCap : ℕ}

theorem unframe_block {opts' : Opts} (hlenField : opts'.lenField = true) (hsync : opts'.syncword = true)
    (hinner : inner.length = nroots) (trailing : List UInt8) (rsLocs : Option (List ℤ)) :
    unframe sha1 (asm ++ golayHeader inner.length ++ onWire opts inner ++ trailing) opts' packetCap rsLocs =
      unframeBlock sha1 (onWire opts inner ++ trailing) (some nroots) 0 opts' packetCap rsLocs := by
  have hdecode := @golay24Decode_header inner.length (by rw [hinner]; decide) (golayHeader inner.length) (by simp)
  rw [List.append_assoc, List.append_assoc, unframe_asm sha1 hlenField hsync rfl, hdecode, headerFlips_self, hinner]
  rfl

theorem firstTry_block (opts' : Opts) (hinner : inner.length = nroots) (trailing : List UInt8)
    (rsLocs : Option (List ℤ)) :
    firstTry sha1 (onWire opts inner ++ trailing) (some nroots) opts' packetCap rsLocs =
      tryLength sha1 (onWire opts inner ++ trailing) nroots opts' packetCap rsLocs := by
  have hpos : 0 < nroots := by decide
  unfold firstTry
  exact if_pos ⟨hpos, by rw [List.length_append, length_onWire]; omega⟩

/-- 32 bytes are too short for Reed-Solomon. -/
theorem unframe_empty (hrs : opts.reedSolomon = true) (hlenField : opts.lenField = true)
    (hsync : opts.syncword = true) (hkey : opts.hmacKey = none) (hinner : inner.length = nroots)
    (trailing : List UInt8) (rsLocs : Option (List ℤ)) :
    unframe sha1 (asm ++ golayHeader inner.length ++ onWire opts inner ++ trailing) opts packetCap rsLocs =
      .reject packetCap 0 (-1) (-1) rsLocs := by
  have htry : tryLength sha1 (onWire opts inner ++ trailing) nroots opts packetCap rsLocs = ⟨none, -1, -1, rsLocs⟩ := by
    unfold tryLength
    rw [if_neg (by decide)]
    dsimp only
    rw [if_pos hrs, if_pos (.inl le_rfl)]
  rw [unframe_block sha1 hlenField hsync hinner]
  unfold unframeBlock
  rw [firstTry_block sha1 opts hinner, htry]
  dsimp only
  rw [hkey]
  exact if_neg fun h => absurd h.2 Bool.false_ne_true

/-- Without Reed-Solomon all 32 bytes are taken for a packet. -/
theorem unframe_empty_rescued (hlenField : opts.lenField = true) (hsync : opts.syncword = true)
    (hkey : opts.hmacKey = none) (hinner : inner.length = nroots) (trailing : List UInt8) {pp : ℕ}
    (h : (unframe sha1 (asm ++ golayHeader inner.length ++ onWire opts inner ++ trailing)
      { opts with reedSolomon := false } packetCap none).ret = some pp) : pp = nroots := by
  have htake : (onWire opts inner ++ trailing).take nroots = onWire opts inner := by
    rw [← hinner, ← length_onWire opts inner, List.take_left]
  have htry : tryLength sha1 (onWire opts inner ++ trailing) nroots { opts with reedSolomon := false } packetCap none =
      ⟨if nroots > packetCap then none else some (onWire { opts with reedSolomon := false } (onWire opts inner)),
        -1, -1, none⟩ := by
    unfold tryLength
    rw [if_neg (by decide), htake]
    dsimp only
    rw [if_neg Bool.false_ne_true]
    unfold checkHmac
    dsimp only
    rw [hkey]
    dsimp only
    rw [length_onWire, length_onWire, hinner]
  rw [@unframe_block sha1 opts inner packetCap { opts with reedSolomon := false } hlenField hsync hinner] at h
  unfold unframeBlock at h
  rw [firstTry_block sha1 _ hinner, htry] at h
  by_cases hcap : nroots > packetCap
  · rw [if_pos hcap] at h
    dsimp only at h
    rw [if_neg fun hrs => absurd hrs.1 Bool.false_ne_true] at h
    cases h
  · rw [if_neg hcap] at h
    have hlen : (onWire { opts with reedSolomon := false } (onWire opts inner)).length = pp := Option.some_inj.mp h
    rw [← hlen, length_onWire, length_onWire, hinner]

/-- An empty packet without a trailer: the block is all parity, and nothing is left of it. -/
theorem unframeWithRescue_empty (hrs : opts.reedSolomon = true) (hlenField : opts.lenField = true)
    (hsync : opts.syncword = true) (hkey : opts.hmacKey = none) (hinner : inner.length = nroots)
    (trailing : List UInt8) (allowPartialRs : Bool) (rsLocs : Option (List ℤ)) :
    (unframeWithRescue sha1 (asm ++ golayHeader inner.length ++ onWire opts inner ++ trailing) opts allowPartialRs
      packetCap rsLocs).ret = none := by
  have hpart : ∀ pp, _ → pp = nroots := fun pp =>
    @unframe_empty_rescued sha1 opts inner packetCap hlenField hsync hkey hinner trailing pp
  unfold unframeWithRescue
  rw [unframe_empty sha1 hrs hlenField hsync hkey hinner]
  generalize unframe sha1 _ { opts with reedSolomon := false } packetCap none = partly at *
  dsimp only [Unframed.reject]
  rw [if_neg (by decide)]
  split_ifs
  · cases hret : partly.ret with
    | none => rfl
    | some pp =>
      dsimp only
      rw [hpart pp hret, if_neg (by decide)]
  · rfl

end Empty

/-! ## The frame in the stream -/

/-- The bits of a sync word with flips, as bytes. -/
theorem exists_flippedAsm {flips : List Bool} (h32 : flips.length = 32) :
    ∃ bytes : List UInt8, bytes.length = 4 ∧ toBits bytes = List.zipWith xor flips asmBits ∧
      (bytes = asm ↔ flips.count true = 0) := by
  obtain ⟨bytes, hlen, hbits⟩ := exists_toBits 4 (List.zipWith xor flips asmBits)
    (by rw [List.length_zipWith, h32]; rfl)
  refine ⟨bytes, hlen, hbits, ?_⟩
  have hcount := popcount_ofBits flips
  rw [h32] at hcount
  constructor
  · rintro rfl
    have hxor := ofBits_zipWith_xor flips asmBits h32
    rw [← hbits] at hxor
    have hzero : ofBits flips ^^^ ofBits asmBits ^^^ ofBits asmBits = ofBits asmBits ^^^ ofBits asmBits := by
      rw [← hxor]
      rfl
    rw [Nat.xor_assoc, Nat.xor_self, Nat.xor_zero] at hzero
    rw [← hcount, hzero, popcount_zero]
  · intro h
    have hflips : flips = List.replicate 32 false := by
      refine List.eq_replicate_iff.mpr ⟨h32, fun bit hbit => ?_⟩
      cases bit with
      | false => rfl
      | true => exact absurd h (List.count_pos_iff.mpr hbit).ne'
    have hsame : toBits bytes = toBits asm := by
      rw [hbits, hflips]
      decide
    have hpack := modemBitsToBytes_toBits bytes []
    rw [hsame, modemBitsToBytes_toBits asm []] at hpack
    exact (List.append_cancel_right hpack).symm

variable {p : Params} {strobes : List ℤ}

/-- Away from other matches the search tries just this one. -/
theorem tried_isolated {invert : Bool} {off m : ℕ} (hm : m ≤ off) (hoff : off < offsets strobes)
    (hcand : Candidate strobes p.syncMaxHam invert off)
    (hiso : ∀ invert' off', off' + 32 ≤ strobes.length → Candidate strobes p.syncMaxHam invert' off' →
      off' = off ∧ (invert = false ∨ invert' = invert)) :
    tried p.syncMaxHam strobes m = [(invert, off)] := by
  have hbest : Best (syncDist strobes invert) (Candidate strobes p.syncMaxHam invert) m (offsets strobes)
      (some off) := by
    have honly : ∀ j, m ≤ j → j < offsets strobes → Candidate strobes p.syncMaxHam invert j → j = off :=
      fun j _ hj hc => (hiso invert j (by unfold offsets at hj; omega) hc).1
    refine ⟨hm, hoff, hcand, fun j h1 h2 hc => ?_, fun j h1 h2 hc => ?_⟩
    · rw [honly j h1 h2 hc]
    · exact absurd (honly j h1 (h2.trans hoff) hc) h2.ne
  have hnone : ∀ invert', Best (syncDist strobes invert') (Candidate strobes p.syncMaxHam invert') (off + 1)
      (offsets strobes) none := by
    intro invert' j h1 h2 hc
    have heq := (hiso invert' j (by unfold offsets at h2; omega) hc).1
    omega
  have htail := tried_of_none (hnone false) (hnone true)
  cases invert with
  | false => rw [tried_of_normal hbest, htail]
  | true =>
    have hnormal : Best (syncDist strobes false) (Candidate strobes p.syncMaxHam false) m (offsets strobes) none := by
      intro j _ h2 hc
      rcases (hiso false j (by unfold offsets at h2; omega) hc).2 with h | h <;> cases h
    rw [tried_of_inverted hnormal hbest, htail]

/-- Then the call returns the frame there when unframing succeeds, and nothing otherwise. -/
theorem tryDecodeWindowIq_isolated (hcap : (strobes.length + 7) / 8 ≤ p.bytesCap) {x : Spot} {m : ℕ}
    (htried : tried p.syncMaxHam strobes m = [x]) (rsLocs : Option (List ℤ)) :
    if ok sha1 p strobes x then
      ∃ r, tryDecodeWindowIq sha1 p strobes m rsLocs = some r ∧ r.IsFrameAt sha1 p strobes x
    else tryDecodeWindowIq sha1 p strobes m rsLocs = none := by
  unfold tryDecodeWindowIq
  have hspec := tryDecodeLoop_spec sha1 p strobes hcap maxAttempts m rsLocs
  have hwalk : visited sha1 p strobes maxAttempts m =
      if ok sha1 p strobes x then [x] else [] := by
    unfold visited
    rw [htried, Retry.walk_succ_cons, Retry.walk_nil, Retry.walk_nil]
  rw [hwalk] at hspec
  by_cases hok : ok sha1 p strobes x = true
  · rw [if_pos hok] at hspec ⊢
    rcases hspec with ⟨-, h⟩ | ⟨r, y, hr, hframe, hcons, -⟩
    · cases h
    · obtain ⟨rfl, -⟩ := List.cons.inj hcons
      exact ⟨r, hr, hframe⟩
  · rw [if_neg hok] at hspec ⊢
    rcases hspec with ⟨h, -⟩ | ⟨r, y, -, -, hcons, -⟩
    · exact h
    · cases hcons

/-- The bytes unframed at a frame with flips in its sync word. -/
theorem frame_bytes {opts : Opts} {packet f : List UInt8} {outBufSize : ℕ} (hlenField : opts.lenField = true)
    (hsync : opts.syncword = true) (hframe : frame sha1 packet opts outBufSize = some f) {flips : List Bool}
    (h32 : flips.length = 32) (tail : List Bool) :
    ∃ inner asm' trailing, Framed sha1 opts packet inner ∧ (asm' = asm ↔ flips.count true = 0) ∧
      (asm' : List UInt8).length = 4 ∧
      modemBitsToBytes (List.zipWith xor flips asmBits ++ toBits (f.drop (opts.prefill.toNat + 4)) ++ tail) =
        asm' ++ golayHeader inner.length ++ onWire opts inner ++ trailing := by
  obtain ⟨inner, hinner, rfl⟩ := frame_eq sha1 hlenField hsync hframe
  obtain ⟨asm', hlen, hbits, hasm⟩ := exists_flippedAsm h32
  have hdrop : ∀ rest : List UInt8, (List.replicate opts.prefill.toNat (0xAA : UInt8) ++ (asm ++ rest)).drop
      (opts.prefill.toNat + 4) = rest := by
    intro rest
    rw [← List.append_assoc]
    apply List.drop_left'
    rw [List.length_append, List.length_replicate]
    rfl
  refine ⟨inner, asm', List.replicate opts.tailfill.toNat 0xAA ++ modemBitsToBytes tail, hinner, hasm, hlen, ?_⟩
  rw [List.append_assoc asm, List.append_assoc asm, hdrop, ← hbits, ← toBits_append, modemBitsToBytes_toBits]
  simp only [List.append_assoc]

/-- **Sync tolerance.** A frame in either polarity, bits of its sync word flipped within the tolerance, no other match
in the window: the call returns its packet exactly when no bit is flipped and the packet is not an empty one without
trailer. -/
theorem tolerance_iff {packet f : List UInt8} {outBufSize : ℕ} (hrs : p.opts.reedSolomon = true)
    (hlenField : p.opts.lenField = true) (hsync : p.opts.syncword = true)
    (hframe : frame sha1 packet p.opts outBufSize = some f) (hpacket : packet.length ≤ p.packetCap)
    (hcap : (strobes.length + 7) / 8 ≤ p.bytesCap) {flips tail : List Bool} (h32 : flips.length = 32)
    (hflips : flips.count true ≤ p.syncMaxHam) {invert : Bool} {off minOffsetIn : ℕ} (hmin : minOffsetIn ≤ off)
    (hstream : (slicer invert strobes).drop off =
      List.zipWith xor flips asmBits ++ toBits (f.drop (p.opts.prefill.toNat + 4)) ++ tail)
    (hiso : ∀ invert' off', off' + 32 ≤ strobes.length → Candidate strobes p.syncMaxHam invert' off' →
      off' = off ∧ (invert = false ∨ invert' = invert)) (rsLocs : Option (List ℤ)) :
    (∃ r, tryDecodeWindowIq sha1 p strobes minOffsetIn rsLocs = some r ∧ r.packetLen = packet.length ∧
      r.unframed.outPacket.take r.packetLen = packet) ↔
    flips.count true = 0 ∧ (packet ≠ [] ∨ p.opts.hmacKey.isSome = true) := by
  obtain ⟨inner, asm', trailing, hinner, hasm, hasm4, hbytes⟩ := frame_bytes sha1 hlenField hsync hframe h32 tail
  rw [← hstream] at hbytes
  have hlen := congrArg List.length hstream
  have hasmBits : asmBits.length = 32 := rfl
  have hword : (List.zipWith xor flips asmBits).length = 32 := by
    rw [List.length_zipWith, h32, hasmBits, Nat.min_self]
  rw [List.length_drop, List.length_append, List.length_append, hword] at hlen
  have hoff : off < offsets strobes := by
    unfold slicer at hlen
    rw [List.length_map] at hlen
    unfold offsets
    omega
  have hslice : slice (slicer invert strobes) off 32 = List.zipWith xor flips asmBits := by
    unfold slice
    rw [hstream, List.append_assoc]
    exact List.take_left' hword
  have hcand : Candidate strobes p.syncMaxHam invert off := (syncDist_of_flips h32 hslice).trans_le hflips
  have hcall := tryDecodeWindowIq_isolated sha1 hcap (tried_isolated hmin hoff hcand hiso) rsLocs
  -- the call returns the packet when unframing does
  have hok : (∃ r, tryDecodeWindowIq sha1 p strobes minOffsetIn rsLocs = some r ∧ r.packetLen = packet.length ∧
      r.unframed.outPacket.take r.packetLen = packet) ↔
      (frameAt sha1 p strobes (invert, off)).ret = some packet.length ∧
        (frameAt sha1 p strobes (invert, off)).outPacket.take packet.length = packet := by
    by_cases hok : ok sha1 p strobes (invert, off) = true
    · rw [if_pos hok] at hcall
      obtain ⟨r, hr, hat⟩ := hcall
      rw [hat.packetLen, ← hat.unframed.outPacket]
      constructor
      · rintro ⟨r', hr', hlen', htake⟩
        obtain rfl := Option.some_inj.mp (hr.symm.trans hr')
        exact ⟨congrArg some hlen', hlen' ▸ htake⟩
      · rintro ⟨hlen', htake⟩
        have heq := Option.some_inj.mp hlen'
        exact ⟨r, hr, heq, heq ▸ htake⟩
    · rw [if_neg hok] at hcall
      rw [hcall]
      refine iff_of_false (by rintro ⟨r, hr, -⟩; cases hr) fun h => hok ?_
      unfold ok
      rw [h.1]
      rfl
  rw [hok]
  unfold frameAt
  dsimp only
  rw [hbytes]
  by_cases hzero : flips.count true = 0
  · obtain rfl := hasm.mpr hzero
    rw [← withHmac_ne_nil_iff sha1]
    by_cases hne : withHmac sha1 p.opts packet = []
    · refine iff_of_false ?_ fun h => h.2 hne
      have hkey : p.opts.hmacKey = none := by
        have hno := mt (withHmac_ne_nil_iff sha1 p.opts packet).mpr (not_not.mpr hne)
        simpa using fun hsome => hno (.inr hsome)
      have hparity : inner.length = nroots := by
        rw [hinner.length_eq sha1 hrs, hne, List.length_nil, Nat.zero_add]
      rw [unframeWithRescue_empty sha1 hrs hlenField hsync hkey hparity]
      rintro ⟨h, -⟩
      cases h
    · exact iff_of_true
        (unframeWithRescue_intact sha1 hlenField hsync hinner hne hpacket trailing p.allowPartialRs none) ⟨hzero, hne⟩
  · refine iff_of_false ?_ fun h => hzero h.1
    have htake : (asm' ++ golayHeader inner.length ++ onWire p.opts inner ++ trailing).take 4 ≠ asm := by
      rw [List.append_assoc, List.append_assoc, ← hasm4, List.take_left]
      exact fun h => hzero (hasm.mp h)
    rw [unframeWithRescue_flipped sha1 hsync htake]
    rintro ⟨h, -⟩
    cases h

end Tolerance

/-! ## One flipped bit -/

/-- The strobes of bits sent in normal polarity. -/
def normalStrobes (bytes : List UInt8) : List ℤ := (toBits bytes).map fun bit => if bit then 1 else -1

/-- The frame of the packet `41`, behind its preamble and sync word. -/
def sentRest : List UInt8 :=
  [75, 144, 33, 190, 18, 90, 217, 31, 8, 51, 83, 223, 222, 18, 35, 174, 174, 52, 67, 142, 26, 15, 213, 59, 44, 62, 204,
    91, 255, 178, 141, 17, 212, 190, 235, 191, 0xAA]

/-- In either polarity only the word in front is near the sync word. -/
theorem eq_zero_of_candidate {strobes : List ℤ} {maxHam : ℕ}
    (h : ∀ invert,
      quiet asmBigEndianU32 maxHam ((slicer invert strobes).drop 32) (wordAt (slicer invert strobes) 0) = true)
    {invert : Bool} {off : ℕ} (hoff : off + 32 ≤ strobes.length) (hc : Candidate strobes maxHam invert off) :
    off = 0 := by
  have hlen : off + 32 ≤ (slicer invert strobes).length := by
    rw [slicer, List.length_map]
    exact hoff
  exact eq_zero_of_quiet (h invert) hlen hc

theorem frame_sent : frame zeroSha1 [0x41] liveParams.opts 128 =
    some (List.replicate 32 0xAA ++ (asm ++ sentRest)) := by decide +kernel

/-- The frame alone in the window is received. -/
theorem tolerance_iff_clean : ∃ r,
    tryDecodeWindowIq zeroSha1 liveParams (normalStrobes (asm ++ sentRest)) 0 none = some r ∧
    r.packetLen = [(0x41 : UInt8)].length ∧ r.unframed.outPacket.take r.packetLen = [0x41] := by
  have hlen : (normalStrobes (asm ++ sentRest)).length = 328 := by decide +kernel
  have hquiet : ∀ invert, quiet asmBigEndianU32 4 ((slicer invert (normalStrobes (asm ++ sentRest))).drop 32)
      (wordAt (slicer invert (normalStrobes (asm ++ sentRest))) 0) = true := by
    decide +kernel
  have hstream : (slicer false (normalStrobes (asm ++ sentRest))).drop 0 =
      List.zipWith xor (List.replicate 32 false) asmBits ++
        toBits ((List.replicate 32 0xAA ++ (asm ++ sentRest)).drop 36) ++ [] := by decide +kernel
  exact (@tolerance_iff zeroSha1 liveParams (normalStrobes (asm ++ sentRest)) [0x41] _ 128 rfl rfl rfl frame_sent
    (by decide) (by rw [hlen]; decide) (List.replicate 32 false) [] rfl (by decide) false 0 0 le_rfl hstream
    (fun invert off hoff hc => ⟨eq_zero_of_candidate hquiet hoff hc, .inl rfl⟩) none).mpr (by decide)

/-- The first bit of the sync word is flipped. -/
def flippedStrobes : List ℤ := normalStrobes ([0x13, 0x0B, 0x51, 0xDE] ++ sentRest)

/-- The search finds the sync word at distance one, and the frame is thrown away. -/
theorem flipped_frame_lost :
    (slicer false flippedStrobes = List.zipWith xor (true :: List.replicate 31 false) asmBits ++ toBits sentRest) ∧
    (∀ invert off, off + 32 ≤ flippedStrobes.length → Candidate flippedStrobes 4 invert off → off = 0) ∧
    ¬ ∃ r, tryDecodeWindowIq zeroSha1 liveParams flippedStrobes 0 none = some r ∧
      r.packetLen = [(0x41 : UInt8)].length ∧ r.unframed.outPacket.take r.packetLen = [0x41] := by
  have hquiet : ∀ invert, quiet asmBigEndianU32 4 ((slicer invert flippedStrobes).drop 32)
      (wordAt (slicer invert flippedStrobes) 0) = true := by
    decide +kernel
  have hnone : (tryDecodeWindowIq zeroSha1 liveParams flippedStrobes 0 none).isNone = true := by decide +kernel
  refine ⟨by decide +kernel, fun invert off hoff hc => eq_zero_of_candidate hquiet hoff hc, ?_⟩
  rintro ⟨r, hr, -⟩
  rw [hr] at hnone
  cases hnone

end SimpleSatOps.DecodeLoop
