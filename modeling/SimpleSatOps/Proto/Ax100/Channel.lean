import SimpleSatOps.Proto.Ax100
import SimpleSatOps.Proto.Rs.Decode

/-!
# The framer over a correctable channel

* `frame_eq` : a frame is preamble, sync word, header, block and postamble;
* `tryLength_near` : the right length undoes up to 16 changed block bytes;
* `unframe_near` : with up to three flipped header bits the right length is the one tried.
-/

namespace SimpleSatOps.Ax100
open Rs Golay24

/-! ## The scrambler -/

@[simp] theorem length_scramble (bytes : List UInt8) : (scramble bytes).length = bytes.length := by simp [scramble]

theorem getElem?_scramble (bytes : List UInt8) (i : ℕ) :
    (scramble bytes)[i]? = bytes[i]?.map (· ^^^ ccsdsScramblerTable.getD (i % 255) 0) := by
  rw [scramble, List.getElem?_mapIdx]

@[simp] theorem scramble_scramble (bytes : List UInt8) : scramble (scramble bytes) = bytes := by
  refine List.ext_getElem? fun i => ?_
  rw [getElem?_scramble, getElem?_scramble, Option.map_map]
  have hid : ((· ^^^ ccsdsScramblerTable.getD (i % 255) 0) ∘ (· ^^^ ccsdsScramblerTable.getD (i % 255) 0)) =
      (id : UInt8 → UInt8) := by
    funext b
    simp [UInt8.xor_assoc]
  rw [hid, Option.map_id]
  rfl

/-- Scrambling keeps distances. -/
theorem hamming_scramble (xs ys : List UInt8) : hamming (scramble xs) (scramble ys) = hamming xs ys := by
  have hdiffs : diffs (scramble xs) (scramble ys) = diffs xs ys := by
    ext i
    rw [mem_diffs, mem_diffs, length_scramble, getElem?_scramble, getElem?_scramble, ne_eq, ne_eq,
      (Option.map_injective fun a b h => by simpa using h).eq_iff]
  rw [hamming, hdiffs, hamming]

@[simp] theorem length_onWire (opts : Opts) (inner : List UInt8) : (onWire opts inner).length = inner.length := by
  rw [onWire]
  split_ifs <;> simp

@[simp] theorem onWire_onWire (opts : Opts) (inner : List UInt8) : onWire opts (onWire opts inner) = inner := by
  rw [onWire, onWire]
  split_ifs <;> simp

theorem hamming_onWire (opts : Opts) (xs ys : List UInt8) :
    hamming (onWire opts xs) (onWire opts ys) = hamming xs ys := by
  rw [onWire, onWire]
  split_ifs
  · exact hamming_scramble xs ys
  · rfl

/-! ## The header -/

theorem headerWord_eq (header : List UInt8) :
    headerWord header =
      (header.getD 0 0).toNat * 65536 + (header.getD 1 0).toNat * 256 + (header.getD 2 0).toNat := by
  have h1 := (header.getD 1 0).toNat_lt
  have h2 := (header.getD 2 0).toNat_lt
  rw [headerWord, Nat.shiftLeft_eq, Nat.shiftLeft_eq, Nat.mul_comm _ (2 ^ 16),
    ← Nat.two_pow_add_eq_or_of_lt (i := 16) (by omega)]
  rw [show 2 ^ 16 * (header.getD 0 0).toNat + (header.getD 1 0).toNat * 2 ^ 8 =
    2 ^ 8 * ((header.getD 0 0).toNat * 256 + (header.getD 1 0).toNat) by ring,
    ← Nat.two_pow_add_eq_or_of_lt (i := 8) h2]
  omega

theorem headerWord_lt (header : List UInt8) : headerWord header < 2 ^ 24 := by
  have h0 := (header.getD 0 0).toNat_lt
  have h1 := (header.getD 1 0).toNat_lt
  have h2 := (header.getD 2 0).toNat_lt
  rw [headerWord_eq]
  omega

theorem headerWord_golayHeader (innerLen : ℕ) : headerWord (golayHeader innerLen) = golay24Encode innerLen := by
  have hlt := golay24Encode_lt innerLen
  rw [headerWord_eq, golayHeader]
  generalize golay24Encode innerLen = g at *
  have hbyte : ∀ n : ℕ, (UInt8.ofNat (n &&& 0xFF)).toNat = n % 256 := fun n => by
    rw [show (0xFF : ℕ) = 2 ^ 8 - 1 by rfl, Nat.and_two_pow_sub_one_eq_mod]
    simp
  simp only [List.getD_cons_zero, List.getD_cons_succ, hbyte, Nat.shiftRight_eq_div_pow]
  omega

/-- Only the first three bytes matter. -/
theorem headerWord_append {header : List UInt8} (h : header.length = 3) (rest : List UInt8) :
    headerWord (header ++ rest) = headerWord header := by
  match header, h with
  | [a, b, c], _ => rfl

/-- The number of bits flipped in a header. -/
def headerFlips (header header' : List UInt8) : ℕ := popcount 32 (headerWord header ^^^ headerWord header')

theorem golay24Decode_header {innerLen : ℕ} (hlen : innerLen < 4096) {header' : List UInt8}
    (h : headerFlips (golayHeader innerLen) header' ≤ 3) :
    golay24Decode (headerWord header') = (some innerLen, headerFlips (golayHeader innerLen) header') := by
  have hmask : headerWord header' &&& 0x00FFFFFF = headerWord header' :=
    Nat.and_two_pow_sub_one_of_lt_two_pow (headerWord_lt header')
  rw [headerFlips, headerWord_golayHeader] at *
  rw [golay24Decode_near hlen (by rwa [hmask]), hmask]

/-! ## The trailer and the frame -/

section Framer
variable (sha1 : List UInt8 → Bytes 20)

@[simp] theorem length_hmac (key data : List UInt8) : (hmac sha1 key data).length = 4 := by
  have hlen := (sha1 ((((sha1 key).1.take 16 ++ List.replicate 48 0).map (· ^^^ 0x5C)) ++
    (sha1 ((((sha1 key).1.take 16 ++ List.replicate 48 0).map (· ^^^ 0x36)) ++ data)).1)).2
  rw [hmac, List.length_take, hlen]
  rfl

theorem length_withHmac (opts : Opts) (packet : List UInt8) :
    (withHmac sha1 opts packet).length = packet.length + if opts.hmacKey.isSome then 4 else 0 := by
  rw [withHmac]
  cases opts.hmacKey <;> simp

theorem withHmac_ne_nil_iff (opts : Opts) (packet : List UInt8) :
    withHmac sha1 opts packet ≠ [] ↔ packet ≠ [] ∨ opts.hmacKey.isSome = true := by
  have hlen := length_withHmac sha1 opts packet
  rw [← List.length_pos_iff, ← List.length_pos_iff, hlen]
  split_ifs with hkey <;> simp [hkey]

/-- The receiver takes the trailer off again. -/
theorem checkHmac_withHmac {opts : Opts} {packet : List UInt8} {outPacketCap : ℕ}
    (hcap : packet.length ≤ outPacketCap) (rsErrors : ℤ) (rsLocs : Option (List ℤ)) :
    checkHmac sha1 opts outPacketCap (withHmac sha1 opts packet) rsErrors rsLocs =
      ⟨some packet, if opts.hmacKey.isSome then 1 else -1, rsErrors, rsLocs⟩ := by
  rw [checkHmac, withHmac]
  cases opts.hmacKey with
  | none => simp [hcap]
  | some key => simp [hcap]

/-- What the block is before scrambling. -/
structure Framed (opts : Opts) (packet inner : List UInt8) : Prop where
  rs : opts.reedSolomon = true → (withHmac sha1 opts packet).length ≤ kk ∧
    rsPycspEncode (withHmac sha1 opts packet) nn = some inner
  plain : opts.reedSolomon = false → inner = withHmac sha1 opts packet
  length_lt : inner.length < 4096
  pos : withHmac sha1 opts packet ≠ [] → 0 < inner.length

theorem frameInner_eq_some {opts : Opts} {packet inner : List UInt8}
    (h : frameInner sha1 opts packet = some inner) : Framed sha1 opts packet inner := by
  have hlen := length_withHmac sha1 opts packet
  rw [frameInner, ← hlen] at h
  by_cases hrs : opts.reedSolomon = true
  · rw [if_pos hrs] at h
    split_ifs at h with h1 h2
    have hle : (withHmac sha1 opts packet).length ≤ kk := Nat.not_lt.mp h1
    have henc := rsPycspEncode_eq hle (show _ ≤ nn from Nat.add_le_add_right hle nroots)
    have hinner : inner.length = (withHmac sha1 opts packet).length + nroots := by
      rw [henc, Option.some_inj] at h
      rw [← h, List.length_append, length_rsParity]
    refine ⟨fun _ => ⟨hle, h⟩, fun hno => absurd hrs (by simp [hno]), ?_, fun hne => ?_⟩
    · have : kk + nroots = 255 := rfl
      omega
    · have := List.length_pos_iff.mpr hne
      omega
  · rw [if_neg hrs] at h
    split_ifs at h with h1
    rw [Option.some_inj] at h
    subst h
    exact ⟨fun hyes => absurd hyes hrs, fun _ => rfl, by omega, fun hne => List.length_pos_iff.mpr hne⟩

/-- With Reed-Solomon the block has the parity behind the data. -/
theorem Framed.length_eq {opts : Opts} {packet inner : List UInt8} (h : Framed sha1 opts packet inner)
    (hrs : opts.reedSolomon = true) : inner.length = (withHmac sha1 opts packet).length + nroots := by
  obtain ⟨hkk, henc⟩ := h.rs hrs
  rw [rsPycspEncode_eq hkk (show _ ≤ nn from Nat.add_le_add_right hkk nroots), Option.some_inj] at henc
  rw [← henc, List.length_append, length_rsParity]

/-- A frame is preamble, sync word, header, block, postamble. -/
theorem frame_eq {packet : List UInt8} {opts : Opts} {outBufSize : ℕ} {f : List UInt8} (hlen : opts.lenField = true)
    (hsync : opts.syncword = true) (h : frame sha1 packet opts outBufSize = some f) :
    ∃ inner, Framed sha1 opts packet inner ∧
      f = List.replicate opts.prefill.toNat 0xAA ++
        (asm ++ golayHeader inner.length ++ onWire opts inner ++ List.replicate opts.tailfill.toNat 0xAA) := by
  rw [frame] at h
  split at h
  · simp at h
  cases hinner : frameInner sha1 opts packet with
  | none => simp [hinner] at h
  | some inner =>
    rw [hinner] at h
    dsimp only at h
    split at h
    · simp at h
    split at h
    · simp at h
    refine ⟨inner, frameInner_eq_some sha1 hinner, ?_⟩
    rw [Option.some_inj] at h
    rw [← h, length_onWire]
    simp only [List.append_assoc]

/-- With Reed-Solomon a packet is framed when it fits the code with its trailer, and the frame fits the buffer. -/
theorem frame_isSome_iff {packet : List UInt8} {opts : Opts} {outBufSize : ℕ} (hrs : opts.reedSolomon = true)
    (hlen : opts.lenField = true) (hsync : opts.syncword = true) (hpre : 0 ≤ opts.prefill)
    (htail : 0 ≤ opts.tailfill) :
    (frame sha1 packet opts outBufSize).isSome ↔ (withHmac sha1 opts packet).length ≤ kk ∧
      opts.prefill.toNat + 7 + ((withHmac sha1 opts packet).length + nroots) + opts.tailfill.toNat ≤ outBufSize := by
  have hdata := length_withHmac sha1 opts packet
  have hconst : kk + nroots = 255 := rfl
  have hcap : innerCap = 4100 := rfl
  unfold frame
  rw [if_neg (by omega)]
  unfold frameInner
  rw [← hdata, if_pos hrs]
  by_cases hkk : (withHmac sha1 opts packet).length ≤ kk
  · rw [if_neg (Nat.not_lt.mpr hkk), if_neg (by omega),
      rsPycspEncode_eq hkk (show _ ≤ nn from Nat.add_le_add_right hkk nroots)]
    dsimp only
    rw [length_onWire, List.length_append, length_rsParity, if_pos hsync, if_pos hlen]
    by_cases htotal : opts.prefill.toNat + 7 + ((withHmac sha1 opts packet).length + nroots) + opts.tailfill.toNat ≤
        outBufSize
    · rw [if_neg (by omega), if_neg (by omega)]
      simp [hkk, htotal]
    · rw [if_pos (by omega)]
      simp [htotal]
  · rw [if_pos (Nat.not_le.mp hkk)]
    simp [hkk]

/-! ## Receiving -/

/-- **The right length undoes the channel**: up to 16 changed bytes with Reed-Solomon, none without. -/
theorem tryLength_near {opts : Opts} {packet inner block' : List UInt8} {outPacketCap : ℕ}
    (h : Framed sha1 opts packet inner) (hne : withHmac sha1 opts packet ≠ [])
    (hcap : packet.length ≤ outPacketCap) (hlen : block'.length = inner.length)
    (hd : hamming block' (onWire opts inner) ≤ if opts.reedSolomon then 16 else 0) (trailing : List UInt8)
    (locs : List ℤ) :
    ∃ locs', tryLength sha1 (block' ++ trailing) inner.length opts outPacketCap (some locs) =
      ⟨some packet, if opts.hmacKey.isSome then 1 else -1,
        if opts.reedSolomon then (hamming block' (onWire opts inner) : ℤ) else -1, some locs'⟩ := by
  have hlt := h.length_lt
  have htake : (block' ++ trailing).take inner.length = block' := by rw [← hlen, List.take_left]
  have hham : hamming (onWire opts block') inner = hamming block' (onWire opts inner) := by
    rw [← hamming_onWire opts (onWire opts block'), onWire_onWire]
  have hinnerCap : innerCap = 4100 := rfl
  rw [tryLength, if_neg (by omega), htake]
  dsimp only
  by_cases hrs : opts.reedSolomon = true
  · obtain ⟨hkk, henc⟩ := h.rs hrs
    rw [if_pos hrs] at hd ⊢
    have hpos : 1 ≤ (withHmac sha1 opts packet).length := List.length_pos_iff.mpr hne
    have hinner := h.length_eq sha1 hrs
    obtain ⟨hres, locs', hlocs, -⟩ := rsPycspDecode_near hpos hkk hkk henc
      (by rw [length_onWire, hlen]) (hham.trans_le hd) locs
    have hconst : nn = kk + nroots := rfl
    rw [if_neg (by omega), hres, hlocs, hham, if_pos hrs]
    exact ⟨locs', checkHmac_withHmac sha1 hcap _ _⟩
  · rw [if_neg hrs] at hd ⊢
    rw [if_neg hrs]
    have heq : onWire opts block' = inner :=
      eq_of_hamming_eq_zero (by rw [length_onWire, hlen]) (Nat.le_zero.mp (hham.trans_le hd))
    rw [heq, h.plain (by simpa using hrs)]
    exact ⟨locs, checkHmac_withHmac sha1 hcap _ _⟩

/-- Past the sync word the header is decoded and the rest is the block. -/
theorem unframe_asm {opts : Opts} {header : List UInt8} (hlenField : opts.lenField = true)
    (hsync : opts.syncword = true) (hheader : header.length = 3) (rest : List UInt8) (outPacketCap : ℕ)
    (rsLocs : Option (List ℤ)) :
    unframe sha1 (asm ++ (header ++ rest)) opts outPacketCap rsLocs =
      unframeBlock sha1 rest (golay24Decode (headerWord header)).1 (golay24Decode (headerWord header)).2 opts
        outPacketCap rsLocs := by
  have htake : (asm ++ (header ++ rest)).take 4 = asm := @List.take_left _ asm _
  have hdrop : (asm ++ (header ++ rest)).drop 4 = header ++ rest := @List.drop_left _ asm _
  have hdrop3 : (header ++ rest).drop 3 = rest := by rw [← hheader, List.drop_left]
  rw [unframe, if_neg (fun hne => hne.2 htake), hdrop, if_pos hsync, if_pos hlenField,
    if_neg (by rw [List.length_append]; omega), headerWord_append hheader, hdrop3]

/-- The decoded length is used when it leads to a packet. -/
theorem unframeBlock_of_some {scrambled packet : List UInt8} {len : ℕ} {opts : Opts} {outPacketCap : ℕ}
    {rsLocs : Option (List ℤ)} {r : Tried} (hpos : 0 < len) (havail : len ≤ scrambled.length)
    (htry : tryLength sha1 scrambled len opts outPacketCap rsLocs = r) (hpacket : r.packet = some packet)
    (golayErrors : ℤ) :
    unframeBlock sha1 scrambled (some len) golayErrors opts outPacketCap rsLocs =
      .accept outPacketCap packet golayErrors 1 r := by
  have hfirst : firstTry sha1 scrambled (some len) opts outPacketCap rsLocs = r :=
    (if_pos ⟨hpos, havail⟩).trans htry
  rw [unframeBlock, hfirst, hpacket]

/-- **The receiver over a correctable channel.** -/
theorem unframe_near {opts : Opts} {packet inner header' block' : List UInt8} {outPacketCap : ℕ}
    (hlenField : opts.lenField = true) (hsync : opts.syncword = true) (h : Framed sha1 opts packet inner)
    (hne : withHmac sha1 opts packet ≠ []) (hcap : packet.length ≤ outPacketCap) (hheader : header'.length = 3)
    (hflips : headerFlips (golayHeader inner.length) header' ≤ 3) (hlen : block'.length = inner.length)
    (hd : hamming block' (onWire opts inner) ≤ if opts.reedSolomon then 16 else 0) (trailing : List UInt8)
    (locs : List ℤ) :
    ∃ locs', unframe sha1 (asm ++ header' ++ block' ++ trailing) opts outPacketCap (some locs) =
      { ret := some packet.length
        outPacket := overlay packet (List.replicate outPacketCap 0)
        golayErrors := headerFlips (golayHeader inner.length) header'
        hmacOk := if opts.hmacKey.isSome then 1 else -1
        rsErrors := if opts.reedSolomon then (hamming block' (onWire opts inner) : ℤ) else -1
        usedGolayLen := 1
        rsLocs := some locs' } := by
  obtain ⟨locs', htry⟩ := tryLength_near sha1 h hne hcap hlen hd trailing locs
  have hpos := h.pos hne
  have havail : inner.length ≤ (block' ++ trailing).length := by
    rw [List.length_append]
    omega
  refine ⟨locs', ?_⟩
  rw [List.append_assoc, List.append_assoc, unframe_asm sha1 hlenField hsync hheader,
    golay24Decode_header h.length_lt hflips, unframeBlock_of_some sha1 hpos havail htry rfl, Unframed.accept]

@[simp] theorem headerFlips_self (header : List UInt8) : headerFlips header header = 0 := by simp [headerFlips]

/-- **Framing survives every correctable channel.** A frame from its sync word on is sync word, header, block and
postamble. After at most three flipped header bits and 16 changed block bytes (none without Reed-Solomon), whatever
follows, the receiver returns the packet and counts the errors. -/
theorem unframe_frame {packet : List UInt8} {opts : Opts} {outBufSize outPacketCap : ℕ} {f : List UInt8}
    (hne : packet ≠ []) (hlenField : opts.lenField = true) (hsync : opts.syncword = true)
    (hframe : frame sha1 packet opts outBufSize = some f) (hcap : packet.length ≤ outPacketCap) :
    ∃ header block, f.drop opts.prefill.toNat = asm ++ header ++ block ++ List.replicate opts.tailfill.toNat 0xAA ∧
      header.length = 3 ∧
      ∀ (header' block' trailing : List UInt8) (locs : List ℤ), header'.length = 3 →
        block'.length = block.length → headerFlips header header' ≤ 3 →
        hamming block' block ≤ (if opts.reedSolomon then 16 else 0) →
        let u := unframe sha1 (asm ++ header' ++ block' ++ trailing) opts outPacketCap (some locs)
        u.ret = some packet.length ∧ u.outPacket.take packet.length = packet ∧
          u.golayErrors = headerFlips header header' ∧
          u.rsErrors = (if opts.reedSolomon then (hamming block' block : ℤ) else -1) ∧
          u.usedGolayLen = 1 ∧ u.hmacOk = if opts.hmacKey.isSome then 1 else -1 := by
  obtain ⟨inner, hinner, rfl⟩ := frame_eq sha1 hlenField hsync hframe
  refine ⟨golayHeader inner.length, onWire opts inner, ?_, rfl, ?_⟩
  · exact List.drop_left' (List.length_replicate)
  · intro header' block' trailing locs hheader hblock hflips hd
    rw [length_onWire] at hblock
    have hdata := (withHmac_ne_nil_iff sha1 opts packet).mpr (.inl hne)
    obtain ⟨locs', hun⟩ := unframe_near sha1 hlenField hsync hinner hdata hcap hheader hflips hblock hd trailing locs
    rw [hun]
    exact ⟨rfl, take_overlay _ _, rfl, rfl, rfl, rfl⟩

end Framer

/-- A keyed Reed-Solomon link. -/
def keyedOpts : Opts := { Opts.defaults with hmacKey := some [7], reedSolomon := true }

theorem unframe_frame_keyed :
    ∃ f, frame (fun _ => ⟨List.replicate 20 9, rfl⟩) [1, 2, 3] keyedOpts 100 = some f ∧
      (unframe (fun _ => ⟨List.replicate 20 9, rfl⟩) (f.drop 32) keyedOpts 10 (some [])).ret = some 3 := by
  have hsome : (frame (fun _ => ⟨List.replicate 20 9, rfl⟩) [1, 2, 3] keyedOpts 100).isSome = true := by
    decide +kernel
  obtain ⟨f, hf⟩ := Option.isSome_iff_exists.mp hsome
  obtain ⟨header, block, hdrop, hlen, hun⟩ :=
    unframe_frame (fun _ => ⟨List.replicate 20 9, rfl⟩) (by decide) rfl rfl hf (show 3 ≤ 10 by decide)
  have h := hun header block [0xAA] [] hlen rfl (by simp) (by simp)
  refine ⟨f, hf, ?_⟩
  rw [show 32 = keyedOpts.prefill.toNat by rfl, hdrop]
  exact h.1

end SimpleSatOps.Ax100
