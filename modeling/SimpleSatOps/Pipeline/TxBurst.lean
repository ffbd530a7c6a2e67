import SimpleSatOps.Proto.Csp
import SimpleSatOps.Proto.Ax100.Channel

/-!
# Building a telecommand frame (`tx_burst_build_frame`)

A telecommand is wrapped as CSP packet, HMAC trailer, Reed-Solomon block and AX100 frame.

* `txBurstBuildFrame_isSome_iff` : the frame is built exactly up to `tcmdRfMaxLen` bytes;
* `txBurstBuildFrame_roundtrip` : the receiver reads header and payload back.
-/

namespace SimpleSatOps.TxBurst
open Rs Ax100 Csp

/-- `TCMD_RF_MAX_LEN`. -/
def tcmdRfMaxLen : ℕ := 215

/-- The size of `csp_packet`. -/
abbrev cspPacketCap : ℕ := 4096

/-- The uplink options: the defaults with Reed-Solomon, and the key when there is one. -/
def burstOpts (hmacKey : Option (List UInt8)) : Opts :=
  { Opts.defaults with hmacKey := hmacKey.filter (0 < ·.length), reedSolomon := true }

section Burst
variable (sha1 : List UInt8 → Bytes 20)

/-- `tx_burst_build_frame`. -/
def txBurstBuildFrame (payload : List UInt8) (cspHdr : CspV1Header) (hmacKey : Option (List UInt8)) (outCap : ℕ) :
    Option (List UInt8) :=
  match cspV1Encode cspHdr payload cspPacketCap with
  | none => none
  | some cspPacket => frame sha1 cspPacket (burstOpts hmacKey) outCap

theorem txBurstBuildFrame_of_not_inRange {cspHdr : CspV1Header} (h : ¬ cspHdr.InRange) (payload : List UInt8)
    (hmacKey : Option (List UInt8)) (outCap : ℕ) : txBurstBuildFrame sha1 payload cspHdr hmacKey outCap = none := by
  unfold txBurstBuildFrame cspV1Encode
  rw [if_pos h]

theorem length_headerBytes (h : ℕ) : (headerBytes h).length = 4 := rfl

theorem cspV1Encode_of_inRange {cspHdr : CspV1Header} (h : cspHdr.InRange) {payload : List UInt8}
    (hcap : 4 + payload.length ≤ cspPacketCap) :
    cspV1Encode cspHdr payload cspPacketCap = some (headerBytes (headerBits cspHdr) ++ payload) := by
  unfold cspV1Encode
  rw [if_neg (not_not.mpr h), if_neg (Nat.not_lt.mpr hcap)]

/-- The inner length of a burst: header, payload and trailer. -/
theorem length_withHmac_burst {key : List UInt8} (hkey : key ≠ []) (h : ℕ) (payload : List UInt8) :
    (withHmac sha1 (burstOpts (some key)) (headerBytes h ++ payload)).length = payload.length + 8 := by
  have hpos := List.length_pos_iff.mpr hkey
  rw [length_withHmac, List.length_append, length_headerBytes]
  have hsome : (burstOpts (some key)).hmacKey.isSome = true := by simp [burstOpts, hpos]
  rw [if_pos hsome]
  omega

/-- **The limit of the compose box is the limit of the link**: with a key a frame is built exactly for payloads of at
most 215 bytes, given the buffer. -/
theorem txBurstBuildFrame_isSome_iff {cspHdr : CspV1Header} (h : cspHdr.InRange) {key : List UInt8} (hkey : key ≠ [])
    (payload : List UInt8) (outCap : ℕ) :
    (txBurstBuildFrame sha1 payload cspHdr (some key) outCap).isSome ↔
      payload.length ≤ tcmdRfMaxLen ∧ payload.length + 80 ≤ outCap := by
  unfold txBurstBuildFrame
  by_cases hcap : 4 + payload.length ≤ cspPacketCap
  · rw [cspV1Encode_of_inRange h hcap]
    dsimp only
    rw [frame_isSome_iff sha1 rfl rfl rfl (show (0 : ℤ) ≤ 32 by decide) (show (0 : ℤ) ≤ 1 by decide),
      length_withHmac_burst sha1 hkey]
    change payload.length + 8 ≤ 223 ∧ 32 + 7 + (payload.length + 8 + 32) + 1 ≤ outCap ↔
      payload.length ≤ 215 ∧ payload.length + 80 ≤ outCap
    omega
  · unfold cspV1Encode
    rw [if_neg (not_not.mpr h), if_pos (Nat.not_le.mp hcap)]
    have hconst : cspPacketCap = 4096 ∧ tcmdRfMaxLen = 215 := ⟨rfl, rfl⟩
    simp only [Option.isSome_none, Bool.false_eq_true, false_iff]
    omega

/-- **A frame that is built is read back**: the receiver, from the sync word on, returns the header and payload. -/
theorem txBurstBuildFrame_roundtrip {cspHdr : CspV1Header} (h : cspHdr.InRange) {key payload f : List UInt8}
    {outCap outPacketCap : ℕ} (hf : txBurstBuildFrame sha1 payload cspHdr (some key) outCap = some f)
    (hcap : 4 + payload.length ≤ outPacketCap) (locs : List ℤ) :
    let u := unframe sha1 (f.drop (burstOpts (some key)).prefill.toNat) (burstOpts (some key)) outPacketCap (some locs)
    u.ret = some (4 + payload.length) ∧ cspV1Decode u.outPacket = cspHdr ∧
      slice u.outPacket 4 payload.length = payload := by
  unfold txBurstBuildFrame at hf
  by_cases hsize : 4 + payload.length ≤ cspPacketCap
  · rw [cspV1Encode_of_inRange h hsize] at hf
    have hlen : (headerBytes (headerBits cspHdr) ++ payload).length = 4 + payload.length := by
      rw [List.length_append, length_headerBytes]
    obtain ⟨inner, hinner, rfl⟩ := frame_eq sha1 rfl rfl hf
    obtain ⟨locs', hun⟩ := unframe_near sha1 rfl rfl hinner
      ((withHmac_ne_nil_iff sha1 _ _).mpr (.inl (List.append_ne_nil_of_left_ne_nil (List.cons_ne_nil _ _) _)))
      (hlen.trans_le hcap) rfl
      ((headerFlips_self _).trans_le (Nat.zero_le 3)) (length_onWire _ _)
      ((hamming_self _).trans_le (Nat.zero_le _)) (List.replicate (burstOpts (some key)).tailfill.toNat 0xAA) locs
    dsimp only
    rw [List.drop_left' List.length_replicate, hun]
    refine ⟨congrArg some hlen, ?_, ?_⟩
    · dsimp only
      rw [overlay, List.append_assoc]
      exact cspV1Decode_headerBytes h _
    · dsimp only
      have hslice := slice_append_left (headerBytes (headerBits cspHdr)) payload
        ((List.replicate outPacketCap (0 : UInt8)).drop (headerBytes (headerBits cspHdr) ++ payload).length)
      exact hslice
  · unfold cspV1Encode at hf
    rw [if_neg (not_not.mpr h), if_pos (Nat.not_le.mp hsize)] at hf
    exact absurd hf (by simp)

/-- **The burst link**: for a header in range and a non-empty key a frame is built exactly up to `TCMD_RF_MAX_LEN`
bytes, and is read back by the receiver; for a header out of range none is built. -/
theorem txBurstBuildFrame_correct (cspHdr : CspV1Header) (payload : List UInt8) (outCap : ℕ) :
    (cspHdr.InRange → ∀ key : List UInt8, key ≠ [] →
      ((txBurstBuildFrame sha1 payload cspHdr (some key) outCap).isSome ↔
        payload.length ≤ tcmdRfMaxLen ∧ payload.length + 80 ≤ outCap) ∧
      ∀ f, txBurstBuildFrame sha1 payload cspHdr (some key) outCap = some f →
        ∀ (outPacketCap : ℕ) (locs : List ℤ), 4 + payload.length ≤ outPacketCap →
          let u := unframe sha1 (f.drop (burstOpts (some key)).prefill.toNat) (burstOpts (some key)) outPacketCap
            (some locs)
          u.ret = some (4 + payload.length) ∧ cspV1Decode u.outPacket = cspHdr ∧
            slice u.outPacket 4 payload.length = payload) ∧
    (¬ cspHdr.InRange → ∀ hmacKey, txBurstBuildFrame sha1 payload cspHdr hmacKey outCap = none) := by
  refine ⟨fun h key hkey => ⟨txBurstBuildFrame_isSome_iff sha1 h hkey payload outCap, ?_⟩, fun h hmacKey => ?_⟩
  · exact fun f hf outPacketCap locs hcap => txBurstBuildFrame_roundtrip sha1 h hf hcap locs
  · exact txBurstBuildFrame_of_not_inRange sha1 h payload hmacKey outCap

end Burst

/-- The longest telecommand is framed and read back, one byte more is refused, and so is a port out of range. -/
theorem txBurstBuildFrame_correct_limit :
    (∃ f, txBurstBuildFrame (fun _ => ⟨List.replicate 20 9, rfl⟩) (List.replicate 215 65) ⟨2, 10, 1, 7, 16, 0⟩
        (some [1]) 295 = some f ∧
      cspV1Decode (unframe (fun _ => ⟨List.replicate 20 9, rfl⟩) (f.drop 32) (burstOpts (some [1])) 219
        (some [])).outPacket = ⟨2, 10, 1, 7, 16, 0⟩) ∧
    (txBurstBuildFrame (fun _ => ⟨List.replicate 20 9, rfl⟩) (List.replicate 216 65) ⟨2, 10, 1, 7, 16, 0⟩
        (some [1]) 4096).isSome = false ∧
    txBurstBuildFrame (fun _ => ⟨List.replicate 20 9, rfl⟩) [] ⟨2, 10, 1, 64, 16, 0⟩ (some [1]) 295 = none := by
  refine ⟨?_, ?_, ?_⟩
  · obtain ⟨hiff, hback⟩ := (txBurstBuildFrame_correct (fun _ => ⟨List.replicate 20 9, rfl⟩) ⟨2, 10, 1, 7, 16, 0⟩
      (List.replicate 215 65) 295).1 (by decide) [1] (by decide)
    obtain ⟨f, hf⟩ := Option.isSome_iff_exists.mp (hiff.mpr (by rw [List.length_replicate]; decide))
    exact ⟨f, hf, (hback f hf 219 [] (by rw [List.length_replicate])).2.1⟩
  · obtain ⟨hiff, -⟩ := (txBurstBuildFrame_correct (fun _ => ⟨List.replicate 20 9, rfl⟩) ⟨2, 10, 1, 7, 16, 0⟩
      (List.replicate 216 65) 4096).1 (by decide) [1] (by decide)
    exact Bool.eq_false_iff.mpr (mt hiff.mp (by rw [List.length_replicate]; decide))
  · exact (txBurstBuildFrame_correct (fun _ => ⟨List.replicate 20 9, rfl⟩) ⟨2, 10, 1, 64, 16, 0⟩ [] 295).2 (by decide)
      (some [1])

end SimpleSatOps.TxBurst
