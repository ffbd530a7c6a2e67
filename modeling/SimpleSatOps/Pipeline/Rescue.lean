import SimpleSatOps.Pipeline.DecodeLoop
import SimpleSatOps.Proto.Ax100.Memory

/-!
# The partial Reed-Solomon rescue (`ax100_unframe_with_rescue`)

* `Plain` : a block that a frame without Reed-Solomon would carry;
* `unframe_plain_cases` : without Reed-Solomon the receiver accepts these blocks only;
* `rescue_cases` : what the rescue returns when the receiver fails;
* `rescueContract_iff` : when it keeps to its rules;
* `not_rescueContract_keyed` : a keyed frame for which it does not.
-/

namespace SimpleSatOps.DecodeLoop
open Rs Golay24 Ax100

section Receiver
variable (sha1 : List UInt8 → Bytes 20)

theorem golayLenOf_noRs (opts : Opts) (bytes : List UInt8) :
    golayLenOf { opts with reedSolomon := false } bytes = golayLenOf opts bytes := by
  unfold golayLenOf
  dsimp only

theorem payload_noRs (opts : Opts) (bytes : List UInt8) :
    payload { opts with reedSolomon := false } bytes = payload opts bytes := by
  unfold payload
  dsimp only

theorem golayErrors_unframeBlock (block : List UInt8) (golayLen : Option ℕ) (golayErrors : ℤ) (opts : Opts) (cap : ℕ)
    (rsLocs : Option (List ℤ)) :
    (unframeBlock sha1 block golayLen golayErrors opts cap rsLocs).golayErrors = golayErrors := by
  rcases @unframeBlock_cases sha1 block golayLen golayErrors opts cap rsLocs with
    ⟨packet, used, r, -, -, heq⟩ | ⟨hmacOk, rsErrors, locs, heq⟩
  · rw [heq]
    rfl
  · rw [heq]
    rfl

/-! ## Without Reed-Solomon -/

theorem withHmac_injective (opts : Opts) : Function.Injective (withHmac sha1 opts) := by
  intro a b h
  have hlen := congrArg List.length h
  rw [length_withHmac, length_withHmac, Nat.add_right_cancel_iff] at hlen
  unfold withHmac at h
  cases hkey : opts.hmacKey with
  | none => rwa [hkey] at h
  | some key =>
    rw [hkey] at h
    exact List.append_inj_left h hlen

/-- The trailer check passes the packets whose trailer stands behind them. -/
theorem checkHmac_packet_iff (opts : Opts) (cap : ℕ) (inner packet : List UInt8) (rsErrors : ℤ)
    (rsLocs : Option (List ℤ)) : (checkHmac sha1 opts cap inner rsErrors rsLocs).packet = some packet ↔
      inner = withHmac sha1 opts packet ∧ packet.length ≤ cap := by
  constructor
  · intro h
    unfold checkHmac at h
    unfold withHmac
    cases hkey : opts.hmacKey with
    | none =>
      rw [hkey] at h
      dsimp only at h ⊢
      split_ifs at h with hcap
      obtain rfl := Option.some_inj.1 h
      exact ⟨rfl, by omega⟩
    | some key =>
      rw [hkey] at h
      dsimp only at h ⊢
      split_ifs at h with hshort hbad hcap
      obtain rfl := Option.some_inj.1 h
      rw [not_not] at hbad
      rw [hbad, List.take_append_drop]
      exact ⟨rfl, by omega⟩
  · rintro ⟨rfl, hcap⟩
    rw [checkHmac_withHmac sha1 hcap]

/-- The bytes carry the block of a frame without Reed-Solomon with this packet, and its length comes without errors. -/
structure Plain (opts : Opts) (bytes : List UInt8) (cap len : ℕ) (packet : List UInt8) : Prop where
  golayLen_eq : golayLenOf opts bytes = some (some len, 0)
  pos : 0 < len
  avail : len ≤ (payload opts bytes).length
  inner : len ≤ innerCap
  block : onWire opts ((payload opts bytes).take len) = withHmac sha1 opts packet
  fits : packet.length ≤ cap

variable {sha1}

theorem Plain.unique {opts : Opts} {bytes packet packet' : List UInt8} {cap len len' : ℕ}
    (h : Plain sha1 opts bytes cap len packet) (h' : Plain sha1 opts bytes cap len' packet') : packet = packet' := by
  have hlen := h.golayLen_eq.symm.trans h'.golayLen_eq
  obtain rfl : len = len' := by simpa using hlen
  exact withHmac_injective sha1 opts (h.block.symm.trans h'.block)

/-- The block without its trailer is the packet. -/
theorem Plain.length_eq {opts : Opts} {bytes packet : List UInt8} {cap len : ℕ}
    (h : Plain sha1 opts bytes cap len packet) :
    len = packet.length + if opts.hmacKey.isSome then 4 else 0 := by
  rw [← length_withHmac sha1, ← h.block, length_onWire, List.length_take, Nat.min_eq_left h.avail]

variable (sha1) in
/-- The attempt at the length of an errorless header, without Reed-Solomon. -/
theorem unframe_plain_cases {opts : Opts} {bytes : List UInt8} {golayLen : Option ℕ}
    (hgolay : golayLenOf opts bytes = some (golayLen, 0)) (cap : ℕ) :
    (∃ len packet r, Plain sha1 opts bytes cap len packet ∧
      unframe sha1 bytes { opts with reedSolomon := false } cap none = .accept cap packet 0 1 r) ∨
    ((unframe sha1 bytes { opts with reedSolomon := false } cap none).ret = none ∧
      ∀ len packet, ¬ Plain sha1 opts bytes cap len packet) := by
  have htry : ∀ len, 0 < len → len ≤ innerCap → ∀ packet,
      (tryLength sha1 (payload opts bytes) len { opts with reedSolomon := false } cap none).packet = some packet ↔
        onWire opts ((payload opts bytes).take len) = withHmac sha1 opts packet ∧ packet.length ≤ cap := by
    intro len _ hinner packet
    rw [tryLength, if_neg (by omega)]
    dsimp only
    rw [if_neg Bool.false_ne_true]
    exact checkHmac_packet_iff sha1 { opts with reedSolomon := false } cap _ packet _ _
  rw [unframe_eq, golayLenOf_noRs, hgolay, payload_noRs]
  unfold unframeBlock
  dsimp only
  rw [if_neg fun h => Bool.false_ne_true h.1]
  cases hfirst : (firstTry sha1 (payload opts bytes) golayLen { opts with reedSolomon := false } cap none).packet with
  | some packet =>
    left
    unfold firstTry at hfirst
    cases golayLen with
    | none => cases hfirst
    | some len =>
      dsimp only at hfirst
      split_ifs at hfirst with hrange
      have hinner : len ≤ innerCap := by
        by_contra hlong
        rw [tryLength, if_pos (by omega)] at hfirst
        cases hfirst
      obtain ⟨hblock, hfits⟩ := (htry len hrange.1 hinner packet).1 hfirst
      exact ⟨len, packet, _, ⟨hgolay, hrange.1, hrange.2, hinner, hblock, hfits⟩, rfl⟩
  | none =>
    right
    refine ⟨rfl, fun len packet h => ?_⟩
    obtain rfl : golayLen = some len := by
      have := hgolay.symm.trans h.golayLen_eq
      simpa using this
    have hsome := (htry len h.pos h.inner packet).2 ⟨h.block, h.fits⟩
    rw [firstTry, if_pos ⟨h.pos, h.avail⟩, hsome] at hfirst
    cases hfirst

/-! ## The rescue -/

variable (sha1) (bytes : List UInt8) (opts : Opts) (allowPartialRs : Bool) (packetCap : ℕ) (rsLocs : Option (List ℤ))

/-- What the rescue needs. -/
def Rescuable (packet : List UInt8) : Prop :=
  allowPartialRs = true ∧ opts.reedSolomon = true ∧ (∃ len, Plain sha1 opts bytes packetCap len packet) ∧
    32 < packet.length

variable {sha1 bytes opts allowPartialRs packetCap rsLocs}

theorem rescue_cases (hfail : (unframe sha1 bytes opts packetCap rsLocs).ret = none) :
    (∃ packet, Rescuable sha1 bytes opts allowPartialRs packetCap packet ∧
      (unframeWithRescue sha1 bytes opts allowPartialRs packetCap rsLocs).ret = some (packet.length - 32) ∧
      (unframeWithRescue sha1 bytes opts allowPartialRs packetCap rsLocs).outPacket =
        overlay packet (List.replicate packetCap 0) ∧
      (unframeWithRescue sha1 bytes opts allowPartialRs packetCap rsLocs).rsErrors = -2) ∨
    ((unframeWithRescue sha1 bytes opts allowPartialRs packetCap rsLocs).ret = none ∧
      ∀ packet, ¬ Rescuable sha1 bytes opts allowPartialRs packetCap packet) := by
  have herrs : (unframe sha1 bytes opts packetCap rsLocs).golayErrors =
      ((golayLenOf opts bytes).map Prod.snd).getD 0 := by
    rw [unframe_eq]
    cases golayLenOf opts bytes with
    | none => rfl
    | some field => exact golayErrors_unframeBlock sha1 _ field.1 field.2 opts packetCap rsLocs
  unfold unframeWithRescue
  dsimp only
  rw [if_neg (by rw [hfail]; nofun)]
  by_cases hgate : allowPartialRs ∧ opts.reedSolomon ∧ (unframe sha1 bytes opts packetCap rsLocs).golayErrors = 0
  · rw [if_pos hgate]
    obtain ⟨hallow, hrs, hzero⟩ := hgate
    rw [herrs] at hzero
    cases hgolay : golayLenOf opts bytes with
    | none =>
      -- the second call gives up at the same place
      have hagain : (unframe sha1 bytes { opts with reedSolomon := false } packetCap none).ret = none := by
        rw [unframe_eq, golayLenOf_noRs, hgolay]
        rfl
      rw [hagain]
      refine Or.inr ⟨hfail, fun packet h => ?_⟩
      obtain ⟨-, -, ⟨len, hplain⟩, -⟩ := h
      rw [hplain.golayLen_eq] at hgolay
      cases hgolay
    | some field =>
      obtain ⟨golayLen, errs⟩ := field
      rw [hgolay] at hzero
      obtain rfl : errs = 0 := hzero
      rcases unframe_plain_cases sha1 hgolay packetCap with ⟨len, packet, r, hplain, heq⟩ | ⟨hnone, hplain⟩
      · rw [heq]
        dsimp only [Unframed.accept]
        by_cases hlong : packet.length > 32
        · rw [if_pos hlong]
          exact Or.inl ⟨packet, ⟨hallow, hrs, ⟨len, hplain⟩, hlong⟩, rfl, rfl, rfl⟩
        · rw [if_neg hlong]
          refine Or.inr ⟨hfail, fun packet' h => ?_⟩
          obtain ⟨-, -, ⟨len', hplain'⟩, hlong'⟩ := h
          rw [hplain.unique hplain'] at hlong
          exact hlong hlong'
      · rw [hnone]
        refine Or.inr ⟨hfail, fun packet h => ?_⟩
        obtain ⟨-, -, ⟨len, hplain'⟩, -⟩ := h
        exact hplain len packet hplain'
  · rw [if_neg hgate]
    refine Or.inr ⟨hfail, fun packet h => ?_⟩
    obtain ⟨hallow, hrs, ⟨len, hplain⟩, -⟩ := h
    refine hgate ⟨hallow, hrs, ?_⟩
    rw [herrs, hplain.golayLen_eq]
    rfl

variable (sha1 bytes opts allowPartialRs packetCap rsLocs)

/-- The rules of the rescue: a success of the receiver is returned as it is; beside that a packet is returned only when
the rescue is allowed, Reed-Solomon is on, there is no key and a length header came without errors, and then it is
the descrambled block without its last 32 bytes, with `rs_errs` -2. -/
def RescueContract : Prop :=
  ((unframe sha1 bytes opts packetCap rsLocs).ret.isSome = true →
    unframeWithRescue sha1 bytes opts allowPartialRs packetCap rsLocs = unframe sha1 bytes opts packetCap rsLocs) ∧
  ((unframe sha1 bytes opts packetCap rsLocs).ret = none → ∀ n,
    (unframeWithRescue sha1 bytes opts allowPartialRs packetCap rsLocs).ret = some n →
      allowPartialRs = true ∧ opts.reedSolomon = true ∧ opts.hmacKey = none ∧ opts.lenField = true ∧
      ∃ len, golayLenOf opts bytes = some (some len, 0) ∧ len ≤ (payload opts bytes).length ∧ n + 32 = len ∧
        (unframeWithRescue sha1 bytes opts allowPartialRs packetCap rsLocs).outPacket.take n =
          (onWire opts ((payload opts bytes).take len)).take (len - 32) ∧
        (unframeWithRescue sha1 bytes opts allowPartialRs packetCap rsLocs).rsErrors = -2)

/-- **The rescue keeps to its rules exactly when** no frame fails that has a key, or no length header, and that the
receiver without Reed-Solomon accepts with more than 32 bytes. -/
theorem rescueContract_iff : RescueContract sha1 bytes opts allowPartialRs packetCap rsLocs ↔
    ¬ ((unframe sha1 bytes opts packetCap rsLocs).ret = none ∧ (opts.hmacKey.isSome = true ∨ opts.lenField = false) ∧
      ∃ packet, Rescuable sha1 bytes opts allowPartialRs packetCap packet) := by
  constructor
  · rintro ⟨-, hrules⟩ ⟨hfail, hbad, packet, hpacket⟩
    rcases rescue_cases hfail with ⟨packet', -, hret, -⟩ | ⟨-, hnone⟩
    · obtain ⟨-, -, hkey, hfield, -⟩ := hrules hfail _ hret
      rcases hbad with hbad | hbad
      · rw [hkey] at hbad
        cases hbad
      · rw [hfield] at hbad
        cases hbad
    · exact hnone packet hpacket
  · intro h
    refine ⟨fun hok => unframeWithRescue_of_isSome sha1 hok allowPartialRs, fun hfail n hn => ?_⟩
    rcases rescue_cases hfail with ⟨packet, hpacket, hret, hout, herrs⟩ | ⟨hnone, -⟩
    · have hgood : ¬ (opts.hmacKey.isSome = true ∨ opts.lenField = false) := fun hbad =>
        h ⟨hfail, hbad, packet, hpacket⟩
      rw [not_or, Option.not_isSome_iff_eq_none, Bool.not_eq_false] at hgood
      obtain ⟨hallow, hrs, ⟨len, hplain⟩, hlong⟩ := hpacket
      have hlen := hplain.length_eq
      have hblock := hplain.block
      rw [hgood.1, if_neg (by nofun), Nat.add_zero] at hlen
      rw [withHmac, hgood.1] at hblock
      obtain rfl : packet.length - 32 = n := Option.some_inj.1 (hret.symm.trans hn)
      refine ⟨hallow, hrs, hgood.1, hgood.2, len, hplain.golayLen_eq, hplain.avail, by omega, ?_, herrs⟩
      rw [hout, hblock, hlen]
      have htake := congrArg (List.take (packet.length - 32)) (take_overlay packet (List.replicate packetCap 0))
      rwa [List.take_take, Nat.min_eq_left (by omega)] at htake
    · rw [hnone] at hn
      cases hn

/-! ## A keyed frame -/

variable {sha1} {opts} {packetCap}

/-- An attempt next to a code block whose data has no matching trailer. -/
theorem tryLength_none_of_near {key data coded block : List UInt8} {len : ℕ} (hrs : opts.reedSolomon = true)
    (hkey : opts.hmacKey = some key) (hpos : 1 ≤ data.length) (hkk : data.length ≤ kk)
    (hcoded : rsPycspEncode data nn = some coded) (hlen : (block.take len).length = coded.length)
    (hnear : hamming (onWire opts (block.take len)) coded ≤ 16)
    (hbad : data.length < 4 ∨ hmac sha1 key (data.take (data.length - 4)) ≠ data.drop (data.length - 4))
    (locs : Option (List ℤ)) : (tryLength sha1 block len opts packetCap locs).packet = none := by
  have hdecode : (rsPycspDecode (onWire opts (block.take len)) kk locs).result =
      some (data, hamming (onWire opts (block.take len)) coded) := by
    rw [rsPycspDecode_locs _ _ locs (some [])]
    exact (rsPycspDecode_near hpos hkk hkk hcoded (by rw [length_onWire, hlen]) hnear []).1
  unfold tryLength
  dsimp only
  rw [if_pos hrs, hdecode]
  split_ifs
  · rfl
  · rfl
  · unfold checkHmac
    rw [hkey]
    dsimp only
    rcases hbad with hshort | htrailer
    · rw [if_pos hshort]
    · rw [if_pos htrailer]
      split_ifs <;> rfl

/-- The receiver fails when every attempt does. -/
theorem unframeBlock_ret_none {block : List UInt8} {len : ℕ} (hlen : nroots < len) (havail : len ≤ block.length)
    (h : ∀ L, nroots < L → L ≤ block.length → ∀ locs, (tryLength sha1 block L opts packetCap locs).packet = none)
    (golayErrors : ℤ) (rsLocs : Option (List ℤ)) :
    (unframeBlock sha1 block (some len) golayErrors opts packetCap rsLocs).ret = none := by
  have hfirst : (firstTry sha1 block (some len) opts packetCap rsLocs).packet = none := by
    rw [firstTry, if_pos ⟨by omega, havail⟩]
    exact h len hlen havail rsLocs
  have hretry : ∀ locs, (retryLengths sha1 block (some len) opts packetCap locs).packet = none := by
    intro locs
    by_contra hsome
    obtain ⟨packet, hpacket⟩ := Option.ne_none_iff_exists'.1 hsome
    obtain ⟨L, locs', hlo, hhi, -, heq⟩ := bruteForce_some _ _ _ hpacket
    exact hsome ((congrArg Tried.packet heq).trans (h L (by omega) (by omega) locs'))
  unfold unframeBlock
  dsimp only
  rw [hfirst]
  dsimp only
  split_ifs
  · rw [hretry]
    rfl
  · rfl

end Receiver

/-- SHA-1 of the key `07`. -/
def keyDigest : Bytes 20 :=
  ⟨[0x5D, 0x1B, 0xE7, 0xE9, 0xDD, 0xA1, 0xEE, 0x88, 0x96, 0xBE, 0x5B, 0x7E, 0x34, 0xA8, 0x5E, 0xE1, 0x64, 0x52, 0xA7,
    0xB4], rfl⟩

/-- The key block of the HMAC. -/
def keyPad (b : UInt8) : List UInt8 := (keyDigest.1.take 16 ++ List.replicate 48 0).map (· ^^^ b)

/-- The values of SHA-1 that are needed: for the key, and for the HMACs of no byte, of one zero and of 33. -/
def sha1Values : List (List UInt8 × Bytes 20) :=
  let none : Bytes 20 := ⟨[0xD1, 0xA8, 0x9D, 0x55, 0x04, 0xFC, 0x4B, 0x76, 0x9C, 0xAE, 0x2B, 0x09, 0xDB, 0x80, 0x1D,
    0x1B, 0xEE, 0xAC, 0x0E, 0x0F], rfl⟩
  let one : Bytes 20 := ⟨[0xCA, 0x33, 0x67, 0xB7, 0x66, 0x7F, 0xBB, 0x45, 0x89, 0xC9, 0x92, 0x5F, 0xEC, 0xBE, 0x3E,
    0x7A, 0x76, 0x6C, 0x71, 0x8E], rfl⟩
  let all : Bytes 20 := ⟨[0x14, 0x10, 0xFA, 0x6C, 0x65, 0x6B, 0x18, 0xCE, 0xDD, 0x45, 0xF5, 0x54, 0xB7, 0x9C, 0xA2,
    0xD2, 0xF3, 0x62, 0x41, 0x13], rfl⟩
  [([7], keyDigest),
    (keyPad 0x36, none),
    (keyPad 0x5C ++ none.1, ⟨[0x8C, 0x33, 0xE6, 0x03, 0xA0, 0x52, 0x2B, 0xFD, 0x75, 0x86, 0x76, 0x28, 0x6B, 0xBD, 0xED,
      0xEF, 0x5D, 0x7E, 0x4A, 0x89], rfl⟩),
    (keyPad 0x36 ++ [0], one),
    (keyPad 0x5C ++ one.1, ⟨[0x16, 0xE4, 0x8A, 0x16, 0xCC, 0x4F, 0x42, 0xA4, 0x33, 0x52, 0x90, 0xA0, 0x00, 0xCA, 0x91,
      0x43, 0x0B, 0x45, 0x23, 0x0E], rfl⟩),
    (keyPad 0x36 ++ List.replicate 33 0, all),
    (keyPad 0x5C ++ all.1, ⟨[0xED, 0xAF, 0x5D, 0xE0, 0xE3, 0x90, 0x97, 0xA8, 0xDF, 0xCD, 0xBD, 0x45, 0xFA, 0x9D, 0x81,
      0x60, 0x30, 0x44, 0xF0, 0x71], rfl⟩)]

/-- SHA-1 at these inputs. -/
def sha1At (data : List UInt8) : Bytes 20 := (sha1Values.lookup data).getD (zeros 20)

/-- A keyed block without Reed-Solomon: 33 zeros and the trailer, scrambled. -/
def plainBlock : List UInt8 := onWire keyedOpts (withHmac sha1At keyedOpts (List.replicate 33 0))

/-- As long as its header says, behind the sync word. -/
def plainFrame : List UInt8 := asm ++ (golayHeader 37 ++ plainBlock)

theorem length_plainBlock : plainBlock.length = 37 := by
  unfold plainBlock
  rw [length_onWire, length_withHmac]
  rfl

/-- Cut anywhere behind its 32nd byte the block is next to a block of zeros. -/
theorem plainBlock_near : ∀ L ≤ 37, nroots < L →
    hamming (onWire keyedOpts (plainBlock.take L)) (List.replicate L 0) ≤ 16 := by
  decide +kernel

/-- Zeros are not followed by their trailer. -/
theorem zeros_untrailed : ∀ n ≤ 5, n < 4 ∨
    hmac sha1At [7] ((List.replicate n 0).take (n - 4)) ≠ (List.replicate n 0).drop (n - 4) := by
  decide +kernel

theorem rsParity_zeros : rsParity (List.replicate kk 0) = List.replicate nroots 0 := by
  decide +kernel

theorem rsPycspEncode_zeros {n : ℕ} (hn : n ≤ kk) :
    rsPycspEncode (List.replicate n 0) nn = some (List.replicate (n + nroots) 0) := by
  have hlen : (List.replicate n (0 : UInt8)).length = n := List.length_replicate
  rw [rsPycspEncode_eq (hlen.trans_le hn) (by rw [hlen]; exact Nat.add_le_add_right hn _), hlen,
    List.replicate_append_replicate, Nat.sub_add_cancel hn, rsParity_zeros, List.replicate_append_replicate]

/-- With Reed-Solomon every length is refused. -/
theorem tryLength_plainBlock {L : ℕ} (hlo : nroots < L) (hhi : L ≤ 37) (locs : Option (List ℤ)) :
    (tryLength sha1At plainBlock L keyedOpts 4096 locs).packet = none := by
  obtain ⟨n, rfl⟩ := Nat.exists_eq_add_of_le' hlo.le
  have hn : 1 ≤ n ∧ n ≤ 5 := by
    have hroots : nroots = 32 := rfl
    omega
  have hzeros : (List.replicate n (0 : UInt8)).length = n := List.length_replicate
  have hkk : n ≤ kk := hn.2.trans (by decide)
  have htaken : (plainBlock.take (n + nroots)).length = (List.replicate (n + nroots) (0 : UInt8)).length := by
    rw [List.length_take, length_plainBlock, List.length_replicate, Nat.min_eq_left hhi]
  refine tryLength_none_of_near rfl rfl (hn.1.trans hzeros.ge) (hzeros.trans_le hkk) (rsPycspEncode_zeros hkk) htaken
    (plainBlock_near _ hhi hlo) ?_ locs
  rw [hzeros]
  exact zeros_untrailed n hn.2

theorem golay24Decode_37 : golay24Decode (headerWord (golayHeader 37)) = (some 37, 0) := by
  have hflips := headerFlips_self (golayHeader 37)
  rw [golay24Decode_header (by decide) (hflips.trans_le (Nat.zero_le 3)), hflips]

theorem unframe_plainFrame : (unframe sha1At plainFrame keyedOpts 4096 none).ret = none := by
  unfold plainFrame
  rw [unframe_asm sha1At rfl rfl rfl, golay24Decode_37]
  refine unframeBlock_ret_none (by decide) length_plainBlock.ge (fun L hlo hhi locs => ?_) _ _
  exact tryLength_plainBlock hlo (hhi.trans length_plainBlock.le) locs

theorem plain_plainFrame : Plain sha1At keyedOpts plainFrame 4096 37 (List.replicate 33 0) := by
  have hpayload : payload keyedOpts plainFrame = plainBlock := rfl
  constructor
  · unfold plainFrame
    rw [golayLenOf_asm rfl rfl rfl, golay24Decode_37]
    rfl
  · omega
  · rw [hpayload, length_plainBlock]
  · decide
  · rw [hpayload, List.take_of_length_le length_plainBlock.le, plainBlock, onWire_onWire]
  · rw [List.length_replicate]
    omega

/-- **A keyed frame without Reed-Solomon**: its only byte beyond 32 is returned, with no word about the trailer. -/
theorem not_rescueContract_keyed : ¬ RescueContract sha1At plainFrame keyedOpts true 4096 none := by
  rintro ⟨-, hrules⟩
  have hpacket : Rescuable sha1At plainFrame keyedOpts true 4096 (List.replicate 33 0) :=
    ⟨rfl, rfl, ⟨37, plain_plainFrame⟩, by rw [List.length_replicate]; omega⟩
  rcases rescue_cases unframe_plainFrame with ⟨packet, -, hret, -⟩ | ⟨-, hnone⟩
  · obtain ⟨-, -, hkey, -⟩ := hrules unframe_plainFrame _ hret
    cases hkey
  · exact hnone _ hpacket

end SimpleSatOps.DecodeLoop
