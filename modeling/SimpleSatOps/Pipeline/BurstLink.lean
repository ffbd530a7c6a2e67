import SimpleSatOps.Pipeline.SyncTolerance
import SimpleSatOps.Pipeline.TxBurst

/-!
# Bursts on the air

From the sender's frames to the packets of the session that decodes the window.

* `Arrival` : a frame as it arrives, and where;
* `frameAt_arrival` : what unframing gives there;
* `visited_sorted` : a session returns its frames in the order of their places;
* `arrivals_received` : frames within the reach of the codes are returned in order;
* `bursts_received` : the same for telecommands.
-/

namespace SimpleSatOps.DecodeLoop
open Rs Golay24 Ax100 ModemIq FirstMin Csp TxBurst

/-- The frame sent, and the header and block that arrive behind the sync word at `spot`. -/
structure Arrival where
  frame : List UInt8
  header : List UInt8
  block : List UInt8
  spot : Spot

namespace Arrival

/-- The header sent. -/
def sentHeader (opts : Opts) (a : Arrival) : List UInt8 := slice a.frame (opts.prefill.toNat + 4) 3

/-- The block sent. -/
def sentBlock (opts : Opts) (a : Arrival) : List UInt8 :=
  slice a.frame (opts.prefill.toNat + 7) (a.frame.length - (opts.prefill.toNat + 7) - opts.tailfill.toNat)

def flips (opts : Opts) (a : Arrival) : ℕ := headerFlips (a.sentHeader opts) a.header

def changed (opts : Opts) (a : Arrival) : ℕ := hamming a.block (a.sentBlock opts)

end Arrival

section Link
variable (sha1 : List UInt8 → Bytes 20)

/-- The sync word arrives exactly, the rest within the reach of the codes. -/
structure Arrival.OnAir (opts : Opts) (strobes : List ℤ) (a : Arrival) : Prop where
  length_header : a.header.length = 3
  length_block : a.block.length = (a.sentBlock opts).length
  flips_le : a.flips opts ≤ 3
  changed_le : a.changed opts ≤ if opts.reedSolomon then 16 else 0
  stream : ∃ tail, (slicer a.spot.1 strobes).drop a.spot.2 = toBits (asm ++ a.header ++ a.block) ++ tail

/-- The packet, and the counts of what was repaired. -/
structure Arrival.Received (opts : Opts) (packet : List UInt8) (a : Arrival) (u : Unframed) : Prop where
  ret : u.ret = some packet.length
  outPacket : u.outPacket.take packet.length = packet
  golayErrors : u.golayErrors = a.flips opts
  rsErrors : u.rsErrors = if opts.reedSolomon then (a.changed opts : ℤ) else -1
  hmacOk : u.hmacOk = if opts.hmacKey.isSome then 1 else -1
  usedGolayLen : u.usedGolayLen = 1

variable {p : Params} {strobes : List ℤ} {packet : List UInt8} {a : Arrival}

/-- The arrival is one of the frame of the packet. -/
def Arrival.Of (opts : Opts) (packet : List UInt8) (a : Arrival) : Prop :=
  ∃ outBufSize, Ax100.frame sha1 packet opts outBufSize = some a.frame

theorem Arrival.Of.sent_eq (hlenField : p.opts.lenField = true) (hsync : p.opts.syncword = true)
    (h : a.Of sha1 p.opts packet) : ∃ inner, Framed sha1 p.opts packet inner ∧
      a.sentHeader p.opts = golayHeader inner.length ∧ a.sentBlock p.opts = onWire p.opts inner := by
  obtain ⟨outBufSize, hframe⟩ := h
  obtain ⟨inner, hinner, hf⟩ := frame_eq sha1 hlenField hsync hframe
  have hprefill : (List.replicate p.opts.prefill.toNat (0xAA : UInt8) ++ asm).length = p.opts.prefill.toNat + 4 := by
    rw [List.length_append, List.length_replicate]
    rfl
  refine ⟨inner, hinner, ?_, ?_⟩
  · unfold Arrival.sentHeader
    have hsplit : a.frame = List.replicate p.opts.prefill.toNat 0xAA ++ asm ++ golayHeader inner.length ++
        (onWire p.opts inner ++ List.replicate p.opts.tailfill.toNat 0xAA) := by
      rw [hf]
      simp only [List.append_assoc]
    rw [hsplit, ← hprefill]
    exact slice_append_left _ (golayHeader inner.length) _
  · unfold Arrival.sentBlock
    have hfront : (List.replicate p.opts.prefill.toNat (0xAA : UInt8) ++ asm ++ golayHeader inner.length).length =
        p.opts.prefill.toNat + 7 := by
      rw [List.length_append, hprefill]
      rfl
    have hsplit : a.frame = List.replicate p.opts.prefill.toNat 0xAA ++ asm ++ golayHeader inner.length ++
        onWire p.opts inner ++ List.replicate p.opts.tailfill.toNat 0xAA := by
      rw [hf]
      simp only [List.append_assoc]
    have hlen : a.frame.length - (p.opts.prefill.toNat + 7) - p.opts.tailfill.toNat = (onWire p.opts inner).length := by
      rw [hsplit, List.length_append, List.length_append, hfront, List.length_replicate]
      omega
    rw [hlen, hsplit, ← hfront]
    exact slice_append_left _ (onWire p.opts inner) _

/-- **Unframing a frame that arrives.** -/
theorem frameAt_arrival (hlenField : p.opts.lenField = true) (hsync : p.opts.syncword = true)
    (hne : packet ≠ [] ∨ p.opts.hmacKey.isSome = true) (hcap : packet.length ≤ p.packetCap)
    (hof : a.Of sha1 p.opts packet) (h : a.OnAir p.opts strobes) :
    a.Received p.opts packet (frameAt sha1 p strobes a.spot) := by
  obtain ⟨inner, hinner, hheader, hblock⟩ := hof.sent_eq sha1 hlenField hsync
  obtain ⟨tail, hstream⟩ := h.stream
  have hflips := h.flips_le
  have hchanged := h.changed_le
  have hlen := h.length_block
  unfold Arrival.flips at hflips
  unfold Arrival.changed at hchanged
  rw [hheader] at hflips
  rw [hblock] at hchanged hlen
  rw [length_onWire] at hlen
  obtain ⟨locs', hun⟩ := unframe_near sha1 hlenField hsync hinner ((withHmac_ne_nil_iff sha1 _ _).mpr hne) hcap
    h.length_header hflips hlen hchanged (modemBitsToBytes tail) []
  have hagree := unframe_agree sha1 p.opts p.packetCap none (some [])
    (asm ++ a.header ++ a.block ++ modemBitsToBytes tail)
  rw [hun] at hagree
  have hat : frameAt sha1 p strobes a.spot =
      unframe sha1 (asm ++ a.header ++ a.block ++ modemBitsToBytes tail) p.opts p.packetCap none := by
    unfold frameAt
    rw [hstream, modemBitsToBytes_toBits]
    exact unframeWithRescue_of_isSome sha1 (by rw [hagree.ret]; rfl) _
  rw [hat]
  refine ⟨hagree.ret, ?_, ?_, ?_, hagree.hmacOk, hagree.usedGolayLen⟩
  · rw [hagree.outPacket]
    exact take_overlay _ _
  · rw [hagree.golayErrors, Arrival.flips, hheader]
  · rw [hagree.rsErrors, Arrival.changed, hblock]

/-- It is one of the frames of the window. -/
theorem Arrival.OnAir.isFrame (hlenField : p.opts.lenField = true) (hsync : p.opts.syncword = true)
    (hne : packet ≠ [] ∨ p.opts.hmacKey.isSome = true) (hcap : packet.length ≤ p.packetCap)
    (hof : a.Of sha1 p.opts packet) (h : a.OnAir p.opts strobes) : IsFrame sha1 p strobes a.spot := by
  obtain ⟨tail, hstream⟩ := h.stream
  refine ⟨?_, ?_⟩
  · unfold slice
    rw [hstream, List.append_assoc asm, toBits_append, List.append_assoc]
    exact List.take_left' rfl
  · unfold ok
    rw [(frameAt_arrival sha1 hlenField hsync hne hcap hof h).ret]
    rfl

end Link

/-! ## The order of the session -/

section Order
variable (sha1 : List UInt8 → Bytes 20) (p : Params) (strobes : List ℤ)

theorem leaders_sorted (syncMaxHam : ℕ) (invert : Bool) (m : ℕ) :
    (leaders syncMaxHam strobes invert m).Pairwise (· < ·) :=
  List.Pairwise.filter _ List.pairwise_lt_range'

theorem tried_sorted (syncMaxHam m : ℕ) : (tried syncMaxHam strobes m).Pairwise (·.2 < ·.2) := by
  unfold tried
  refine List.pairwise_append.mpr ⟨?_, ?_, fun x hx y hy => ?_⟩
  · exact List.pairwise_map.mpr (leaders_sorted strobes syncMaxHam false m)
  · exact List.pairwise_map.mpr ((leaders_sorted strobes syncMaxHam true m).filter _)
  · -- an inverted match is tried only behind every match of normal polarity
    obtain ⟨off, hoff, rfl⟩ := List.mem_map.mp hx
    obtain ⟨off', hoff', rfl⟩ := List.mem_map.mp hy
    obtain ⟨-, hlt, hunbeaten⟩ := mem_unbeaten.mp hoff
    have hafter : AfterNormal syncMaxHam strobes off' := of_decide_eq_true (List.mem_filter.mp hoff').2
    exact hafter off hlt hunbeaten.1

theorem visited_sorted (m : ℕ) : (visited sha1 p strobes maxAttempts m).Pairwise (·.2 < ·.2) :=
  (tried_sorted strobes p.syncMaxHam m).sublist (Retry.walk_sublist _ _)

end Order

/-- What is related to the elements of a list, for some of them in order. -/
theorem sublistForall₂_of_sublist {α β : Type*} {R : α → β → Prop} {xs ys : List α} (hsub : xs.Sublist ys) {rs : List β}
    (h : List.Forall₂ R ys rs) : List.SublistForall₂ R xs rs := by
  induction hsub generalizing rs with
  | slnil => exact .nil
  | cons y _ ih =>
      cases h with
      | cons _ hrest => exact .cons_right (ih hrest)
  | cons_cons y _ ih =>
      cases h with
      | cons hy hrest => exact .cons hy (ih hrest)

theorem sublistForall₂_imp {α β : Type*} {R S : α → β → Prop} {xs : List α} {rs : List β}
    (h : List.SublistForall₂ R xs rs) (himp : ∀ x ∈ xs, ∀ r, R x r → S x r) : List.SublistForall₂ S xs rs := by
  induction h with
  | nil => exact .nil
  | cons hx _ ih => exact .cons (himp _ List.mem_cons_self _ hx) (ih fun x hx => himp x (List.mem_cons_of_mem _ hx))
  | cons_right _ ih => exact .cons_right (ih himp)

/-! ## The link -/

section Session
variable (sha1 : List UInt8 → Bytes 20) {p : Params} {strobes : List ℤ}

/-- The session tries the place of the frame: no match of normal polarity lies behind an inverted frame, and before no
frame 256 matches in a row fail. -/
structure Reached (p : Params) (strobes : List ℤ) (x : Spot) : Prop where
  polarity : x.1 = true → AfterNormal p.syncMaxHam strobes x.2
  patient : Retry.Patient (ok sha1 p strobes) maxAttempts ((tried p.syncMaxHam strobes 0).takeWhile (· ≠ x))

theorem mem_visited {x : Spot} (h : IsFrame sha1 p strobes x) (hx : Reached sha1 p strobes x) :
    x ∈ visited sha1 p strobes maxAttempts 0 :=
  (Retry.mem_walk_iff_takeWhile h.2).mpr ⟨(h.mem_tried_iff sha1 p strobes).mpr hx.polarity, hx.patient⟩

theorem Arrival.Received.agree {opts : Opts} {packet : List UInt8} {a : Arrival} {u u' : Unframed}
    (h : a.Received opts packet u) (hu : u'.Agree u) : a.Received opts packet u' :=
  ⟨hu.ret.trans h.ret, hu.outPacket ▸ h.outPacket, hu.golayErrors.trans h.golayErrors, hu.rsErrors.trans h.rsErrors,
    hu.hmacOk.trans h.hmacOk, hu.usedGolayLen.trans h.usedGolayLen⟩

/-- **The link.** The session returns the packets of all frames that arrive, in the order in which they were sent, with
the counts of the errors repaired. -/
theorem arrivals_received (hlenField : p.opts.lenField = true) (hsync : p.opts.syncword = true)
    (hbytes : (strobes.length + 7) / 8 ≤ p.bytesCap) {sent : List (List UInt8 × Arrival)}
    (hne : ∀ s ∈ sent, s.1 ≠ [] ∨ p.opts.hmacKey.isSome = true) (hcap : ∀ s ∈ sent, s.1.length ≤ p.packetCap)
    (hof : ∀ s ∈ sent, s.2.Of sha1 p.opts s.1) (hair : ∀ s ∈ sent, s.2.OnAir p.opts strobes)
    (hreached : ∀ s ∈ sent, Reached sha1 p strobes s.2.spot)
    (hsorted : sent.Pairwise (·.2.spot.2 < ·.2.spot.2)) (rsLocs : Option (List ℤ)) :
    ∃ rs, decodeWindow sha1 p strobes rsLocs (strobes.length + 1) 0 = some rs ∧
      List.SublistForall₂ (fun s r => r.syncOff = s.2.spot.2 ∧ r.packetLen = s.1.length ∧
        s.2.Received p.opts s.1 r.unframed) sent rs := by
  obtain ⟨rs, hrs, hall⟩ := decodeWindow_spec sha1 p strobes hbytes rsLocs (strobes.length + 1) 0
    (by unfold offsets; omega)
  refine ⟨rs, hrs, ?_⟩
  have hspots : (sent.map fun s => s.2.spot).Sublist (visited sha1 p strobes maxAttempts 0) := by
    have hpairwise : (sent.map fun s => s.2.spot).Pairwise (·.2 < ·.2) := List.pairwise_map.mpr hsorted
    have hanti : Std.Antisymm fun x y : Spot => x.2 < y.2 := ⟨fun x y hxy hyx => absurd hxy hyx.le.not_gt⟩
    refine List.sublist_of_subperm_of_pairwise (List.subperm_of_subset ?_ fun x hx => ?_) hpairwise
      (visited_sorted sha1 p strobes 0)
    · exact hpairwise.imp fun h => by rintro rfl; exact lt_irrefl _ h
    · obtain ⟨s, hs, rfl⟩ := List.mem_map.mp hx
      have hframe := (hair s hs).isFrame sha1 hlenField hsync (hne s hs) (hcap s hs) (hof s hs)
      exact mem_visited sha1 hframe (hreached s hs)
  have hat := sublistForall₂_of_sublist hspots hall.flip
  rw [List.sublistForall₂_map_left_iff] at hat
  refine sublistForall₂_imp hat fun s hs r hr => ?_
  have hframe := frameAt_arrival sha1 hlenField hsync (hne s hs) (hcap s hs) (hof s hs) (hair s hs)
  exact ⟨hr.syncOff, Option.some_inj.mp (hr.packetLen.symm.trans hframe.ret), hframe.agree hr.unframed⟩

/-- A telecommand, and its frame as it arrives. -/
structure Burst where
  cspHdr : CspV1Header
  payload : List UInt8
  arrival : Arrival

/-- `tx_burst_build_frame` has built the frame. -/
structure Burst.Built (key : List UInt8) (b : Burst) : Prop where
  inRange : b.cspHdr.InRange
  built : ∃ outCap, txBurstBuildFrame sha1 b.payload b.cspHdr (some key) outCap = some b.arrival.frame

/-- The bytes of the packet that is framed. -/
def Burst.packet (b : Burst) : List UInt8 := headerBytes (headerBits b.cspHdr) ++ b.payload

/-- The telecommand comes out at the place of its frame, with the counts of the errors repaired. -/
structure Burst.Received (opts : Opts) (b : Burst) (r : WindowFrame) : Prop where
  syncOff : r.syncOff = b.arrival.spot.2
  hdr : cspV1Decode r.unframed.outPacket = b.cspHdr
  payload : slice r.unframed.outPacket 4 (r.packetLen - 4) = b.payload
  golayErrors : r.unframed.golayErrors = b.arrival.flips opts
  rsErrors : r.unframed.rsErrors = b.arrival.changed opts
  hmacOk : r.unframed.hmacOk = 1

theorem Burst.Built.of {key : List UInt8} {b : Burst} (h : b.Built sha1 key) :
    b.arrival.Of sha1 (burstOpts (some key)) b.packet := by
  obtain ⟨outCap, hbuilt⟩ := h.built
  unfold txBurstBuildFrame at hbuilt
  by_cases hsize : 4 + b.payload.length ≤ cspPacketCap
  · rw [cspV1Encode_of_inRange h.inRange hsize] at hbuilt
    exact ⟨outCap, hbuilt⟩
  · unfold cspV1Encode at hbuilt
    rw [if_neg (not_not.mpr h.inRange), if_pos (Nat.not_le.mp hsize)] at hbuilt
    exact nomatch hbuilt

/-- The packet in the buffer is header and payload. -/
theorem Burst.received {key : List UInt8} (hkey : key ≠ []) {b : Burst} (h : b.cspHdr.InRange) {r : WindowFrame}
    (hoff : r.syncOff = b.arrival.spot.2) (hlen : r.packetLen = b.packet.length)
    (hr : b.arrival.Received (burstOpts (some key)) b.packet r.unframed) : b.Received (burstOpts (some key)) r := by
  have hsplit := List.take_append_drop b.packet.length r.unframed.outPacket
  rw [hr.outPacket] at hsplit
  have hpacket : r.unframed.outPacket = headerBytes (headerBits b.cspHdr) ++ b.payload ++
      r.unframed.outPacket.drop b.packet.length := hsplit.symm
  have hpos := List.length_pos_iff.mpr hkey
  have hhmac : (burstOpts (some key)).hmacKey.isSome = true := by simp [burstOpts, hpos]
  refine ⟨hoff, ?_, ?_, hr.golayErrors, hr.rsErrors, ?_⟩
  · rw [hpacket, List.append_assoc]
    exact cspV1Decode_headerBytes h _
  · have hpayload : r.packetLen - 4 = b.payload.length := by
      rw [hlen, Burst.packet, List.length_append, length_headerBytes, Nat.add_sub_cancel_left]
    rw [hpayload, hpacket]
    exact slice_append_left _ b.payload _
  · rw [hr.hmacOk, if_pos hhmac]

/-- **Telecommands get through.** Any number of bursts in one window, each with at most three flipped bits in its length
and sixteen changed bytes in its block, come out of the session in the order in which they were sent, with header and
payload as they were built. -/
theorem bursts_received {key : List UInt8} (hkey : key ≠ []) (hopts : p.opts = burstOpts (some key))
    (hbytes : (strobes.length + 7) / 8 ≤ p.bytesCap) {bursts : List Burst} (hbuilt : ∀ b ∈ bursts, b.Built sha1 key)
    (hcap : ∀ b ∈ bursts, 4 + b.payload.length ≤ p.packetCap)
    (hair : ∀ b ∈ bursts, b.arrival.OnAir p.opts strobes)
    (hreached : ∀ b ∈ bursts, Reached sha1 p strobes b.arrival.spot)
    (hsorted : bursts.Pairwise (·.arrival.spot.2 < ·.arrival.spot.2)) (rsLocs : Option (List ℤ)) :
    ∃ rs, decodeWindow sha1 p strobes rsLocs (strobes.length + 1) 0 = some rs ∧
      List.SublistForall₂ (Burst.Received p.opts) bursts rs := by
  have hlen : ∀ b : Burst, b.packet.length = 4 + b.payload.length := fun b => by
    rw [Burst.packet, List.length_append, length_headerBytes]
  have hne : ∀ b : Burst, b.packet ≠ [] := fun b hnil => by
    have h := hlen b
    rw [hnil, List.length_nil] at h
    omega
  obtain ⟨rs, hrs, hsub⟩ := @arrivals_received sha1 p strobes (by rw [hopts]; rfl) (by rw [hopts]; rfl) hbytes
    (bursts.map fun b => (b.packet, b.arrival))
    (List.forall_mem_map.mpr fun b _ => .inl (hne b))
    (List.forall_mem_map.mpr fun b hb => (hlen b).trans_le (hcap b hb))
    (List.forall_mem_map.mpr fun b hb => by rw [hopts]; exact (hbuilt b hb).of sha1)
    (List.forall_mem_map.mpr hair) (List.forall_mem_map.mpr hreached) (List.pairwise_map.mpr hsorted) rsLocs
  rw [List.sublistForall₂_map_left_iff] at hsub
  refine ⟨rs, hrs, sublistForall₂_imp hsub ?_⟩
  rintro b hb r ⟨hoff, hlength, hr⟩
  rw [hopts] at hr ⊢
  exact Burst.received hkey (hbuilt b hb).inRange hoff hlength hr

end Session

/-! ## A burst with errors -/

/-- The telecommand `41`, with a flipped bit in its length and a changed byte in its block. -/
def noisyBurst : Burst where
  cspHdr := ⟨2, 10, 1, 7, 16, 0⟩
  payload := [0x41]
  arrival :=
    { frame := List.replicate 32 0xAA ++ (asm ++ ([154, 64, 41] ++ ([107, 89, 222, 192, 219, 13, 112, 188, 142, 21,
        207, 129, 129, 71, 191, 216, 214, 61, 198, 154, 62, 225, 227, 62, 13, 0, 92, 73, 177, 238, 255, 232, 42, 198,
        78, 182, 56, 185, 12, 113, 48] ++ [0xAA])))
      header := [155, 64, 41]
      block := [107, 89, 7, 192, 219, 13, 112, 188, 142, 21, 207, 129, 129, 71, 191, 216, 214, 61, 198, 154, 62, 225,
        227, 62, 13, 0, 92, 73, 177, 238, 255, 232, 42, 198, 78, 182, 56, 185, 12, 113, 48]
      spot := (false, 0) }

def burstParams : Params := { liveParams with opts := burstOpts (some [1]) }

/-- The strobes of the burst as it arrives. -/
def noisyStrobes : List ℤ := normalStrobes (asm ++ noisyBurst.arrival.header ++ noisyBurst.arrival.block)

theorem noisyBurst_onAir : noisyBurst.arrival.OnAir burstParams.opts noisyStrobes where
  length_header := rfl
  length_block := by decide +kernel
  flips_le := by decide +kernel
  changed_le := by decide +kernel
  stream := ⟨[], by decide +kernel⟩

theorem noisyBurst_reached : Reached zeroSha1 burstParams noisyStrobes noisyBurst.arrival.spot := by
  have hlen : noisyStrobes.length = 384 := by decide +kernel
  have hquiet : ∀ invert, AsmSearch.quiet AsmSearch.asmBigEndianU32 4 ((slicer invert noisyStrobes).drop 32)
      (AsmSearch.wordAt (slicer invert noisyStrobes) 0) = true := by
    decide +kernel
  have hcand : Candidate noisyStrobes 4 false 0 := by decide +kernel
  have htried : tried burstParams.syncMaxHam noisyStrobes 0 = [(false, 0)] :=
    tried_isolated le_rfl (by unfold offsets; omega) hcand fun invert off hoff hc =>
      ⟨eq_zero_of_candidate hquiet hoff hc, .inl rfl⟩
  refine ⟨fun h => (nomatch h), fun j hj => ?_⟩
  rw [htried] at hj
  exact absurd hj (Nat.not_le.mpr (Nat.lt_of_lt_of_le (by decide) (Nat.le_add_left maxAttempts j)))

theorem bursts_received_noisy : ∃ rs,
    decodeWindow zeroSha1 burstParams noisyStrobes none (noisyStrobes.length + 1) 0 = some rs ∧
      List.SublistForall₂ (Burst.Received burstParams.opts) [noisyBurst] rs := by
  have hlen : noisyStrobes.length = 384 := by decide +kernel
  refine bursts_received zeroSha1 (show ([1] : List UInt8) ≠ [] by decide) rfl (by rw [hlen]; decide) ?_ ?_ ?_ ?_
    (List.pairwise_singleton _ _) none
  · exact List.forall_mem_singleton.mpr ⟨by decide, 128, by decide +kernel⟩
  · exact List.forall_mem_singleton.mpr (by decide)
  · exact List.forall_mem_singleton.mpr noisyBurst_onAir
  · exact List.forall_mem_singleton.mpr noisyBurst_reached

end SimpleSatOps.DecodeLoop
