import SimpleSatOps.Pipeline.BurstLink
import SimpleSatOps.Pipeline.Dedup
import SimpleSatOps.Pipeline.RxPanel

/-!
# The live session (`try_decode_iq_at_window`)

Window after window, every frame found is checked, deduplicated, counted, recorded and shown.

* `tryDecodeIqAtWindow` : one window;
* `Tracks`, `run_tracks` : what a session has emitted and recorded;
* `Downlink` : a packet of the satellite, with the checksum behind it;
* `downlink_recorded` : a packet in any number of overlapping windows is recorded once, as it was sent.
-/

namespace SimpleSatOps.RxSession
open Rs Ax100 ModemIq DecodeLoop Csp PacketDb

/-- A full window: its strobes, `total_window_samples`, and which sync word on the air is at an offset. -/
structure AirWindow where
  strobes : List ℤ
  totalWindowSamples : UInt64
  asmOf : ℕ → ℕ

/-- A call of `emit_frame`. -/
structure Emission where
  sighting : Sighting
  frame : Frame
  outside : Outside

/-- The record of the call; an empty payload is not recorded. -/
def Emission.record (e : Emission) : Option (Record (List UInt8)) :=
  if e.frame.payload = [] then none else some (recordOf e.frame.toPacket e.frame.payload e.outside.setting)

/-- The part of `rx_session_t` behind the windows, and the calls of `emit_frame` so far. -/
structure Live where
  recentPosQuant : Ring UInt64
  framesTotal : UInt64
  lastFrameLen : ℕ
  panel : Panel
  emitted : List Emission

/-- A `calloc`ed session with a database. -/
def Live.fresh (rows : Slot → Row) : Live := ⟨Emitter.fresh.recentPosQuant, 0, 0, ⟨⟨.reset, true, []⟩, rows⟩, []⟩

/-- The `plen` bytes of the packet buffer, and the findings. -/
def found (r : WindowFrame) : Found where
  packet := r.unframed.outPacket.take r.packetLen
  golayErrs := r.unframed.golayErrors
  hmacOk := r.unframed.hmacOk
  rsErrs := r.unframed.rsErrors

section Live
variable (sha1 : List UInt8 → Bytes 20) (p : Params) (dp : DedupParams) (windowSamples : UInt64)
  (outside : ℕ → Outside) (rsLocs : Option (List ℤ))

def AirWindow.sighting (w : AirWindow) (r : WindowFrame) : Sighting :=
  ⟨w.asmOf r.syncOff, w.totalWindowSamples - windowSamples, UInt64.ofNat r.syncOff⟩

/-- One round of the loop, behind `try_decode_window_iq`. -/
def Live.frame (w : AirWindow) (l : Live) (r : WindowFrame) : Live :=
  if ¬ (found r).Fits then l
  else if l.recentPosQuant.has dedupRingSz (posQuant dp (w.sighting windowSamples r)) then l
  else
    { recentPosQuant := l.recentPosQuant.push dedupRingSz (posQuant dp (w.sighting windowSamples r))
      framesTotal := l.framesTotal + 1
      lastFrameLen := (keptFrame (found r)).packet.length
      panel := l.panel.frame (found r, outside l.emitted.length)
      emitted := l.emitted ++ [⟨w.sighting windowSamples r, keptFrame (found r), outside l.emitted.length⟩] }

/-- `try_decode_iq_at_window`. -/
def tryDecodeIqAtWindow (l : Live) (w : AirWindow) : Option Live :=
  (decodeWindow sha1 p w.strobes rsLocs (w.strobes.length + 1) 0).map fun rs =>
    rs.foldl (Live.frame dp windowSamples outside w) l

/-- The windows of a session. -/
def Live.run (l : Live) (ws : List AirWindow) : Option Live :=
  ws.foldlM (tryDecodeIqAtWindow sha1 p dp windowSamples outside rsLocs) l

/-- The frames that the loop takes in a window. -/
def AirWindow.taken (w : AirWindow) : List WindowFrame :=
  ((decodeWindow sha1 p w.strobes rsLocs (w.strobes.length + 1) 0).getD []).filter fun r => (found r).Fits

/-- Their sightings, over the windows of a session. -/
def sightings (ws : List AirWindow) : List Sighting :=
  ws.flatMap fun w => (w.taken sha1 p rsLocs).map (w.sighting windowSamples)

/-! ## What a session keeps -/

/-- The session has emitted and recorded what the deduplication of `ss` lets pass; `Q` holds of every call. -/
structure Tracks (Q : Emission → Prop) (ss : List Sighting) (l : Live) : Prop where
  ring : l.recentPosQuant = (RxSession.run dp ss).recentPosQuant
  emitted : l.emitted.map Emission.sighting = (RxSession.run dp ss).emitted
  total : l.framesTotal = UInt64.ofNat l.emitted.length
  db : l.panel.globals.packetDb = true
  inserted : l.panel.globals.inserted = l.emitted.filterMap Emission.record
  calls : ∀ e ∈ l.emitted, Q e

variable {sha1 p dp windowSamples outside rsLocs} {Q : Emission → Prop} {ss : List Sighting} {l : Live}

theorem inserted_emitFrame (g : Globals) (hdb : g.packetDb = true) (s : Sighting) (f : Frame) (o : Outside) :
    (emitFrame g f o).packetDb = true ∧
      (emitFrame g f o).inserted = g.inserted ++ (Emission.record ⟨s, f, o⟩).toList := by
  unfold Emission.record
  by_cases hnil : f.payload = []
  · have hnone : emitFrame g f o = { g with stats := g.stats.emit f } := by
      unfold emitFrame recordPacket
      exact if_pos (List.length_eq_zero_iff.mpr hnil)
    rw [hnone, if_pos hnil]
    exact ⟨hdb, (List.append_nil _).symm⟩
  · obtain ⟨hkeep, hinserted⟩ := inserted_recordPacket { g with stats := g.stats.emit f } (p := f.toPacket) hnil o
    unfold emitFrame
    rw [hkeep, hinserted, if_neg hnil]
    unfold kept
    rw [if_pos hdb]
    exact ⟨hdb, rfl⟩

theorem tracks_fresh (rows : Slot → Row) : Tracks dp Q [] (.fresh rows) :=
  ⟨rfl, rfl, rfl, rfl, rfl, fun _ h => absurd h List.not_mem_nil⟩

/-- **One frame.** -/
theorem Tracks.frame (h : Tracks dp Q ss l) {w : AirWindow} {r : WindowFrame} (hfits : (found r).Fits)
    (hQ : ∀ o, Q ⟨w.sighting windowSamples r, keptFrame (found r), o⟩) :
    Tracks dp Q (ss ++ [w.sighting windowSamples r]) (Live.frame dp windowSamples outside w l r) := by
  unfold Live.frame
  rw [if_neg (not_not.mpr hfits), h.ring]
  have hrun := run_append dp ss (w.sighting windowSamples r)
  unfold dedup at hrun
  split_ifs at hrun ⊢ with hseen
  · exact ⟨h.ring.trans (congrArg Emitter.recentPosQuant hrun).symm,
      h.emitted.trans (congrArg Emitter.emitted hrun).symm, h.total, h.db, h.inserted, h.calls⟩
  · have hpanel : l.panel.frame (found r, outside l.emitted.length) =
        ⟨emitFrame l.panel.globals (keptFrame (found r)) (outside l.emitted.length),
          bookkeep l.panel.rows (keptFrame (found r))⟩ := if_pos hfits
    obtain ⟨hdb, hinserted⟩ := inserted_emitFrame l.panel.globals h.db (w.sighting windowSamples r)
      (keptFrame (found r)) (outside l.emitted.length)
    refine ⟨?_, ?_, ?_, ?_, ?_, ?_⟩
    · rw [hrun]
    · rw [hrun, List.map_append, h.emitted]
      rfl
    · rw [List.length_append, List.length_singleton, UInt64.ofNat_add, ← h.total]
      rfl
    · rw [hpanel]
      exact hdb
    · rw [hpanel]
      dsimp only
      rw [hinserted, h.inserted, List.filterMap_append]
      cases hrec : Emission.record ⟨w.sighting windowSamples r, keptFrame (found r), outside l.emitted.length⟩ with
      | none => rw [List.filterMap_cons_none hrec, Option.toList_none, List.filterMap_nil]
      | some record => rw [List.filterMap_cons_some hrec, Option.toList_some, List.filterMap_nil]
    · intro e he
      rcases List.mem_append.mp he with hold | hnew
      · exact h.calls e hold
      · rw [List.mem_singleton.mp hnew]
        exact hQ _

theorem frame_of_not_fits {w : AirWindow} {r : WindowFrame} (h : ¬ (found r).Fits) :
    Live.frame dp windowSamples outside w l r = l := if_pos h

/-- The frames of a window. -/
theorem Tracks.frames {w : AirWindow} (rs : List WindowFrame) :
    ∀ {ss : List Sighting} {l : Live}, Tracks dp Q ss l →
      (∀ r ∈ rs, (found r).Fits → ∀ o, Q ⟨w.sighting windowSamples r, keptFrame (found r), o⟩) →
      Tracks dp Q (ss ++ (rs.filter fun r => (found r).Fits).map (w.sighting windowSamples))
        (rs.foldl (Live.frame dp windowSamples outside w) l) := by
  induction rs with
  | nil =>
      intro ss l h _
      rw [List.filter_nil, List.map_nil, List.append_nil]
      exact h
  | cons r rs ih =>
      intro ss l h hQ
      have hrest : ∀ r ∈ rs, _ := fun r' hr' => hQ r' (List.mem_cons_of_mem _ hr')
      rw [List.foldl_cons]
      by_cases hfits : (found r).Fits
      · have hcons : (r :: rs).filter (fun r => (found r).Fits) = r :: rs.filter fun r => (found r).Fits :=
          List.filter_cons_of_pos (decide_eq_true hfits)
        rw [hcons, List.map_cons, List.append_cons]
        exact ih (h.frame hfits (hQ r List.mem_cons_self hfits)) hrest
      · have hcons : (r :: rs).filter (fun r => (found r).Fits) = rs.filter fun r => (found r).Fits :=
          List.filter_cons_of_neg (by rwa [decide_eq_true_eq])
        rw [hcons, frame_of_not_fits hfits]
        exact ih h hrest

/-- **A session.** It ends, and what it emits is what the deduplication of its sightings lets pass. -/
theorem run_tracks (rows : Slot → Row) {ws : List AirWindow}
    (hbytes : ∀ w ∈ ws, (w.strobes.length + 7) / 8 ≤ p.bytesCap)
    (hQ : ∀ w ∈ ws, ∀ r ∈ w.taken sha1 p rsLocs, ∀ o, Q ⟨w.sighting windowSamples r, keptFrame (found r), o⟩) :
    ∃ l, Live.run sha1 p dp windowSamples outside rsLocs (.fresh rows) ws = some l ∧
      Tracks dp Q (sightings sha1 p windowSamples rsLocs ws) l := by
  unfold Live.run sightings
  induction ws using List.reverseRecOn with
  | nil => exact ⟨_, rfl, tracks_fresh rows⟩
  | append_singleton ws w ih =>
      obtain ⟨l, hl, htracks⟩ := ih (fun w' hw' => hbytes w' (List.mem_append_left _ hw'))
        fun w' hw' => hQ w' (List.mem_append_left _ hw')
      obtain ⟨rs, hrs, -⟩ := decodeWindow_spec sha1 p w.strobes (hbytes w (by simp)) rsLocs (w.strobes.length + 1) 0
        (by unfold offsets; omega)
      have htaken : w.taken sha1 p rsLocs = rs.filter fun r => (found r).Fits := by
        unfold AirWindow.taken
        rw [hrs, Option.getD_some]
      have hw := hQ w (by simp)
      rw [htaken] at hw
      refine ⟨rs.foldl (Live.frame dp windowSamples outside w) l, ?_, ?_⟩
      · rw [List.foldlM_append, hl]
        change (tryDecodeIqAtWindow sha1 p dp windowSamples outside rsLocs l w).bind pure = _
        unfold tryDecodeIqAtWindow
        rw [hrs]
        rfl
      · rw [List.flatMap_append, List.flatMap_cons, List.flatMap_nil, List.append_nil, htaken]
        exact htracks.frames rs fun r hr hfits => hw r (List.mem_filter.mpr ⟨hr, decide_eq_true hfits⟩)

end Live

/-! ## A packet of the satellite -/

/-- Header, payload and the checksum behind them. -/
structure Downlink where
  hdr : CspV1Header
  payload : List UInt8
  trailer : List UInt8

/-- What the checksum is over. -/
def Downlink.data (d : Downlink) : List UInt8 := headerBytes (headerBits d.hdr) ++ d.payload

def Downlink.packet (d : Downlink) : List UInt8 := d.data ++ d.trailer

/-- The header is in range, there is a payload, and the checksum is right in one of the byte orders. -/
structure Downlink.Sound (d : Downlink) : Prop where
  inRange : d.hdr.InRange
  payload : d.payload ≠ []
  length_trailer : d.trailer.length = 4
  checksum : cspCrc32c d.data = crcLe d.trailer ∨ cspCrc32c d.data = crcBe d.trailer

theorem Downlink.length_data (d : Downlink) : d.data.length = 4 + d.payload.length := List.length_append

theorem kept_of_checked {packet : List UInt8} (h : (checkTrailer packet).1 = 1) :
    (checkTrailer packet).2 = packet.length - 4 := by
  unfold checkTrailer at h ⊢
  dsimp only at h ⊢
  split_ifs at h ⊢
  · rfl
  · exact absurd h (show (0 : ℤ) ≠ 1 by decide)
  · exact absurd h (show (-1 : ℤ) ≠ 1 by decide)

theorem checkTrailer_downlink {d : Downlink} (hd : d.Sound) : checkTrailer d.packet = (1, d.data.length) := by
  have hlen := d.length_data
  have htrailer := hd.length_trailer
  have hcheck : (checkTrailer d.packet).1 = 1 := by
    match htr : d.trailer, htrailer with
    | [a, b, c, e], _ =>
        have hsum := hd.checksum
        rw [htr] at hsum
        rw [Downlink.packet, htr]
        exact (checkTrailer_append d.data (by omega) a b c e).mpr hsum
  refine Prod.ext hcheck ?_
  rw [kept_of_checked hcheck, Downlink.packet, List.length_append, htrailer, Nat.add_sub_cancel]

/-- The frame that is emitted for the packet. -/
theorem toPacket_downlink {d : Downlink} (hd : d.Sound) {f : Found} (hf : f.packet = d.packet) :
    (keptFrame f).payload = d.payload ∧
      (keptFrame f).toPacket = ⟨d.hdr, true, some d.payload, f.golayErrs, f.hmacOk, f.rsErrs, 1⟩ := by
  have hpacket : (keptFrame f).packet = d.data := by
    unfold keptFrame
    dsimp only
    rw [hf, checkTrailer_downlink hd, Downlink.packet, List.take_left]
  have hcsp : (keptFrame f).cspOk = true := by
    unfold Frame.cspOk
    rw [hpacket, d.length_data]
    exact decide_eq_true (Nat.le_add_right 4 _)
  have hpayload : (keptFrame f).payload = d.payload := by
    unfold Frame.payload
    rw [if_pos hcsp, hpacket]
    rfl
  have hhdr : cspV1Decode (keptFrame f).packet = d.hdr := by
    rw [hpacket]
    exact cspV1Decode_headerBytes hd.inRange d.payload
  have hcrc : (keptFrame f).crcStatus = 1 := by
    unfold keptFrame
    dsimp only
    rw [hf, checkTrailer_downlink hd]
  refine ⟨hpayload, ?_⟩
  unfold Frame.toPacket
  rw [hcsp, if_pos rfl, hhdr, hpayload, hcrc]
  rfl

section Downlink
variable (sha1 : List UInt8 → Bytes 20) {p : Params} (dp : DedupParams) (windowSamples : UInt64)
  (outside : ℕ → Outside) (rsLocs : Option (List ℤ))

/-- The packet arrives in the window at `x`. -/
def Downlink.At (d : Downlink) (p : Params) (w : AirWindow) (x : Spot) (a : Arrival) : Prop :=
  a.spot = x ∧ a.Of sha1 p.opts d.packet ∧ a.OnAir p.opts w.strobes

/-- The record of the packet that arrives. -/
def Downlink.recorded (d : Downlink) (opts : Opts) (a : Arrival) (setting : Record (List UInt8)) :
    Record (List UInt8) :=
  recordOf ⟨d.hdr, true, some d.payload, a.flips opts, if opts.hmacKey.isSome then 1 else -1,
    if opts.reedSolomon then a.changed opts else -1, 1⟩ d.payload setting

/-- A call for the sync word `asm` is one for the packet. -/
def Downlink.Recorded (d : Downlink) (p : Params) (ws : List AirWindow) (asm : ℕ) (e : Emission) : Prop :=
  e.sighting.asm = asm →
    ∃ w ∈ ws, ∃ x a, d.At sha1 p w x a ∧ e.record = some (d.recorded p.opts a e.outside.setting)

/-- A framed packet fits the buffer. -/
theorem length_le_of_framed {opts : Opts} {packet inner : List UInt8} (h : Framed sha1 opts packet inner) :
    packet.length ≤ packetCap := by
  have hlen := length_withHmac sha1 opts packet
  have hlt := h.length_lt
  have hle : packet.length ≤ inner.length := by
    by_cases hrs : opts.reedSolomon = true
    · rw [h.length_eq sha1 hrs]
      omega
    · rw [h.plain (Bool.eq_false_iff.mpr hrs)]
      omega
  have hsize : packetCap = 4200 := rfl
  omega

theorem found_of_received {d : Downlink} {opts : Opts} {a : Arrival} {r : WindowFrame}
    (hlen : r.packetLen = d.packet.length) (h : a.Received opts d.packet r.unframed) :
    found r = ⟨d.packet, a.flips opts, if opts.hmacKey.isSome then 1 else -1,
      if opts.reedSolomon then (a.changed opts : ℤ) else -1⟩ := by
  unfold found
  rw [hlen, h.outPacket, h.golayErrors, h.hmacOk, h.rsErrors]

/-- What the session makes of the packet where it arrives. -/
theorem found_of_at {d : Downlink} (hlenField : p.opts.lenField = true) (hsync : p.opts.syncword = true)
    (hcap : p.packetCap = packetCap) {w : AirWindow} {x : Spot} {a : Arrival} (h : d.At sha1 p w x a)
    {r : WindowFrame} (hr : r.IsFrameAt sha1 p w.strobes x) :
    found r = ⟨d.packet, a.flips p.opts, if p.opts.hmacKey.isSome then 1 else -1,
      if p.opts.reedSolomon then (a.changed p.opts : ℤ) else -1⟩ := by
  obtain ⟨rfl, hof, hair⟩ := h
  have hne : d.packet ≠ [] := List.append_ne_nil_of_left_ne_nil (List.append_ne_nil_of_left_ne_nil
    (List.cons_ne_nil _ _) _) _
  obtain ⟨inner, hinner, -⟩ := hof.sent_eq sha1 hlenField hsync
  have hlen := length_le_of_framed sha1 hinner
  have hframe := frameAt_arrival sha1 hlenField hsync (.inl hne) (hcap ▸ hlen) hof hair
  have hpacket := Option.some_inj.mp (hr.packetLen.symm.trans hframe.ret)
  exact found_of_received hpacket (hframe.agree hr.unframed)

theorem fits_of_found {d : Downlink} {f : Found} (hf : f.packet = d.packet) (hlen : d.packet.length ≤ packetCap) :
    f.Fits := by
  have hdata := d.length_data
  refine ⟨?_, hf ▸ hlen⟩
  rw [hf, Downlink.packet, List.length_append]
  omega

/-- The frames taken in a window are frames at their places. -/
theorem isFrameAt_of_taken {w : AirWindow} (hbytes : (w.strobes.length + 7) / 8 ≤ p.bytesCap) {r : WindowFrame}
    (hr : r ∈ w.taken sha1 p rsLocs) : r.IsFrameAt sha1 p w.strobes (r.polarityUsed, r.syncOff) := by
  obtain ⟨rs, hrs, hall⟩ := decodeWindow_spec sha1 p w.strobes hbytes rsLocs (w.strobes.length + 1) 0
    (by unfold offsets; omega)
  unfold AirWindow.taken at hr
  rw [hrs, Option.getD_some] at hr
  obtain ⟨x, -, hx⟩ := (exists_of_forall₂ sha1 p w.strobes hall).1 r (List.mem_of_mem_filter hr)
  rw [hx.polarityUsed, hx.syncOff]
  exact hx

/-- A packet that the session reaches is taken. -/
theorem exists_taken {d : Downlink} (hlenField : p.opts.lenField = true) (hsync : p.opts.syncword = true)
    (hcap : p.packetCap = packetCap) {w : AirWindow}
    (hbytes : (w.strobes.length + 7) / 8 ≤ p.bytesCap) {x : Spot} {a : Arrival} (h : d.At sha1 p w x a)
    (hx : Reached sha1 p w.strobes x) : ∃ r ∈ w.taken sha1 p rsLocs, r.syncOff = x.2 := by
  obtain ⟨rs, hrs, hall⟩ := decodeWindow_spec sha1 p w.strobes hbytes rsLocs (w.strobes.length + 1) 0
    (by unfold offsets; omega)
  obtain ⟨hspot, hof, hair⟩ := h
  have hne : d.packet ≠ [] := List.append_ne_nil_of_left_ne_nil (List.append_ne_nil_of_left_ne_nil
    (List.cons_ne_nil _ _) _) _
  obtain ⟨inner, hinner, -⟩ := hof.sent_eq sha1 hlenField hsync
  have hlen := length_le_of_framed sha1 hinner
  have hframe := hair.isFrame sha1 hlenField hsync (.inl hne) (hcap ▸ hlen) hof
  rw [hspot] at hframe
  obtain ⟨r, hr, hat⟩ := (exists_of_forall₂ sha1 p w.strobes hall).2 x (mem_visited sha1 hframe hx)
  have hfound := found_of_at sha1 hlenField hsync hcap ⟨hspot, hof, hair⟩ hat
  refine ⟨r, ?_, hat.syncOff⟩
  unfold AirWindow.taken
  rw [hrs, Option.getD_some]
  exact List.mem_filter.mpr ⟨hr, decide_eq_true (fits_of_found (congrArg Found.packet hfound) hlen)⟩

/-- **Downlink, end to end.** A packet of the satellite that arrives in one window or in several overlapping ones is
handed to the database exactly once: with its header and payload, its checksum found good, and the counts of the errors
that were repaired. -/
theorem downlink_recorded (rows : Slot → Row) {ws : List AirWindow} (hlenField : p.opts.lenField = true)
    (hsync : p.opts.syncword = true) (hcap : p.packetCap = packetCap)
    (hbytes : ∀ w ∈ ws, (w.strobes.length + 7) / 8 ≤ p.bytesCap)
    (hrun : RunOk dp (sightings sha1 p windowSamples rsLocs ws)) {d : Downlink} (hd : d.Sound) {asm : ℕ}
    (hin : ∃ w ∈ ws, ∃ x a, d.At sha1 p w x a ∧ Reached sha1 p w.strobes x ∧ w.asmOf x.2 = asm)
    (honly : ∀ w ∈ ws, ∀ r ∈ w.taken sha1 p rsLocs, w.asmOf r.syncOff = asm →
      ∃ a, d.At sha1 p w (r.polarityUsed, r.syncOff) a) :
    ∃ l e, Live.run sha1 p dp windowSamples outside rsLocs (.fresh rows) ws = some l ∧
      l.panel.globals.inserted = l.emitted.filterMap Emission.record ∧
      l.emitted.filter (·.sighting.asm = asm) = [e] ∧
      ∃ w ∈ ws, ∃ x a, d.At sha1 p w x a ∧ e.record = some (d.recorded p.opts a e.outside.setting) := by
  have hcalls : ∀ w ∈ ws, ∀ r ∈ w.taken sha1 p rsLocs, ∀ o,
      d.Recorded sha1 p ws asm ⟨w.sighting windowSamples r, keptFrame (found r), o⟩ := by
    intro w hw r hr o hasm
    obtain ⟨a, hat⟩ := honly w hw r hr hasm
    have hfound := found_of_at sha1 hlenField hsync hcap hat (isFrameAt_of_taken sha1 rsLocs (hbytes w hw) hr)
    obtain ⟨hpayload, hpacket⟩ := toPacket_downlink hd (congrArg Found.packet hfound)
    refine ⟨w, hw, _, a, hat, ?_⟩
    unfold Emission.record Downlink.recorded
    dsimp only
    rw [hpayload, if_neg hd.payload, hpacket, hfound]
  obtain ⟨l, hl, htracks⟩ :=
    @run_tracks sha1 p dp windowSamples outside rsLocs (d.Recorded sha1 p ws asm) rows ws hbytes hcalls
  obtain ⟨w, hw, x, a, hat, hx, hasm⟩ := hin
  obtain ⟨r, hr, hoff⟩ := exists_taken sha1 rsLocs hlenField hsync hcap (hbytes w hw) hat hx
  have hseen : w.sighting windowSamples r ∈ sightings sha1 p windowSamples rsLocs ws :=
    List.mem_flatMap.mpr ⟨w, hw, List.mem_map_of_mem hr⟩
  have honce := eachOnce_of_runOk dp hrun _ hseen
  have hlabel : (w.sighting windowSamples r).asm = asm := (congrArg w.asmOf hoff).trans hasm
  unfold emissions at honce
  rw [hlabel, ← htracks.emitted, List.countP_map, List.countP_eq_length_filter] at honce
  obtain ⟨e, he⟩ := List.length_eq_one_iff.mp honce
  have hmem : e ∈ l.emitted.filter ((fun s : Sighting => decide (s.asm = asm)) ∘ Emission.sighting) :=
    he ▸ List.mem_singleton_self e
  obtain ⟨hemitted, hasm'⟩ := List.mem_filter.mp hmem
  exact ⟨l, e, hl, htracks.inserted, he, htracks.calls e hemitted (of_decide_eq_true hasm')⟩

end Downlink

/-! ## A packet in two windows -/

/-- Only the word at `off` is near the sync word. -/
theorem eq_of_quiet {strobes : List ℤ} {maxHam off : ℕ}
    (hbefore : ∀ invert, ∀ j < off, maxHam < syncDist strobes invert j)
    (hbehind : ∀ invert, AsmSearch.quiet AsmSearch.asmBigEndianU32 maxHam ((slicer invert strobes).drop (off + 32))
      (AsmSearch.wordAt (slicer invert strobes) off) = true)
    {invert : Bool} {j : ℕ} (hj : j + 32 ≤ strobes.length) (hc : Candidate strobes maxHam invert j) : j = off := by
  have hlen : j + 32 ≤ (slicer invert strobes).length := by
    rw [slicer, List.length_map]
    exact hj
  rcases Nat.lt_trichotomy j off with hlt | heq | hgt
  · exact absurd hc (Nat.not_le.mpr (hbefore invert j hlt))
  · exact heq
  · exact absurd hc (Nat.not_le.mpr (AsmSearch.lt_asmDist_of_quiet _ off rfl (hbehind invert) j hgt hlen))

/-- A log message of the satellite. -/
def logDownlink : Downlink := ⟨⟨2, 1, 10, 7, 16, 0⟩, [0x03, 0x41], [251, 117, 32, 74]⟩

theorem logDownlink_sound : logDownlink.Sound := ⟨by decide, by decide, rfl, .inl (by decide +kernel)⟩

def logHeader : List UInt8 := [34, 208, 42]

def logBlock : List UInt8 :=
  [125, 233, 222, 192, 153, 76, 139, 201, 174, 102, 231, 227, 32, 202, 163, 28, 121, 86, 109, 87, 144, 154, 133, 67,
    179, 55, 196, 71, 61, 93, 4, 88, 28, 99, 69, 78, 159, 103, 103, 161, 71, 11]

/-- Its frame, the third byte of the block changed on the way. -/
def logArrival (off : ℕ) : Arrival where
  frame := List.replicate 32 0xAA ++ asm ++ logHeader ++ logBlock ++ [0xAA]
  header := logHeader
  block := logBlock.set 2 0
  spot := (false, off)

def sessionParams : Params := { liveParams with packetCap := packetCap }

/-- A window that holds the frame at `off`, and nothing else near the sync word. -/
structure OnlyLog (w : AirWindow) (off : ℕ) : Prop where
  length_le : (w.strobes.length + 7) / 8 ≤ 64
  stream : (slicer false w.strobes).drop off = toBits (asm ++ logHeader ++ logBlock.set 2 0)
  before : ∀ invert, ∀ j < off, 4 < syncDist w.strobes invert j
  behind : ∀ invert, AsmSearch.quiet AsmSearch.asmBigEndianU32 4 ((slicer invert w.strobes).drop (off + 32))
    (AsmSearch.wordAt (slicer invert w.strobes) off) = true

section OnlyLog
variable {w : AirWindow} {off : ℕ}

theorem OnlyLog.arrives (h : OnlyLog w off) :
    logDownlink.At zeroSha1 sessionParams w (false, off) (logArrival off) where
  left := rfl
  right := by
    refine ⟨⟨128, ?_⟩, rfl, ?_, ?_, ?_, [], ?_⟩
    · exact (by decide +kernel : frame zeroSha1 logDownlink.packet sessionParams.opts 128 =
        some (logArrival 0).frame)
    · exact (by decide +kernel : (logArrival 0).block.length = ((logArrival 0).sentBlock sessionParams.opts).length)
    · exact (by decide +kernel : (logArrival 0).flips sessionParams.opts ≤ 3)
    · exact (by decide +kernel : (logArrival 0).changed sessionParams.opts ≤ 16)
    · rw [List.append_nil]
      exact h.stream

theorem OnlyLog.tried (h : OnlyLog w off) : tried sessionParams.syncMaxHam w.strobes 0 = [(false, off)] := by
  have hlen := congrArg List.length h.stream
  have hbits : (toBits (asm ++ logHeader ++ logBlock.set 2 0)).length = 392 := by decide +kernel
  rw [hbits, List.length_drop, slicer, List.length_map] at hlen
  have hword : slice (slicer false w.strobes) off 32 = asmBits := by
    unfold slice
    rw [h.stream]
    decide +kernel
  have hcand : Candidate w.strobes 4 false off := (syncDist_of_exact hword).trans_le (Nat.zero_le 4)
  exact tried_isolated (Nat.zero_le off) (by unfold offsets; omega) hcand fun invert j hj hc =>
    ⟨eq_of_quiet h.before h.behind hj hc, .inl rfl⟩

theorem OnlyLog.reached (h : OnlyLog w off) : Reached zeroSha1 sessionParams w.strobes (false, off) := by
  refine ⟨fun hinvert => (nomatch hinvert), fun j hj => ?_⟩
  rw [h.tried, List.takeWhile_cons_of_neg (by simp)] at hj
  exact absurd hj (Nat.not_le.mpr (Nat.lt_of_lt_of_le (by decide) (Nat.le_add_left maxAttempts j)))

theorem OnlyLog.taken (h : OnlyLog w off) :
    ∃ r, w.taken zeroSha1 sessionParams none = [r] ∧ r.polarityUsed = false ∧ r.syncOff = off := by
  obtain ⟨rs, hrs, hall⟩ := decodeWindow_spec zeroSha1 sessionParams w.strobes h.length_le none (w.strobes.length + 1) 0
    (by unfold offsets; omega)
  have hvisited : visited zeroSha1 sessionParams w.strobes maxAttempts 0 = [(false, off)] := by
    have hframe := h.arrives.2.2.isFrame zeroSha1 rfl rfl (.inl (by decide)) (by decide) h.arrives.2.1
    have hmem := mem_visited zeroSha1 hframe h.reached
    have hsub : (visited zeroSha1 sessionParams w.strobes maxAttempts 0).Sublist [(false, off)] :=
      h.tried ▸ Retry.walk_sublist _ maxAttempts
    rcases List.sublist_singleton.mp hsub with hnil | hone
    · rw [hnil] at hmem
      exact absurd hmem List.not_mem_nil
    · exact hone
  rw [hvisited] at hall
  cases hall with
  | @cons r _ rest _ hr hrest =>
      cases hrest
      have hfound := found_of_at zeroSha1 rfl rfl rfl h.arrives hr
      have hfits : (found r).Fits := fits_of_found (congrArg Found.packet hfound) (by decide)
      refine ⟨r, ?_, hr.polarityUsed, hr.syncOff⟩
      unfold AirWindow.taken
      rw [hrs, Option.getD_some, List.filter_singleton, decide_eq_true hfits]
      rfl

end OnlyLog

/-- The window that begins with a byte of the preamble. -/
def firstWindow : AirWindow where
  strobes := normalStrobes ([0xAA] ++ asm ++ logHeader ++ logBlock.set 2 0)
  totalWindowSamples := 100
  asmOf off := if off = 8 then 7 else 0

/-- The one that begins eight strobes later. -/
def secondWindow : AirWindow where
  strobes := normalStrobes (asm ++ logHeader ++ logBlock.set 2 0)
  totalWindowSamples := 140
  asmOf off := if off = 0 then 7 else 0

theorem onlyLog_first : OnlyLog firstWindow 8 :=
  ⟨by decide +kernel, by decide +kernel, by decide +kernel, by decide +kernel⟩

theorem onlyLog_second : OnlyLog secondWindow 0 :=
  ⟨by decide +kernel, by decide +kernel, by decide +kernel, by decide +kernel⟩

theorem downlink_recorded_log :
    ∃ l e, Live.run zeroSha1 sessionParams params48k 100 (fun _ => ⟨Record.blank, 0⟩) none
        (.fresh fun _ => ⟨0, 0, [], []⟩) [firstWindow, secondWindow] = some l ∧
      l.panel.globals.inserted = l.emitted.filterMap Emission.record ∧
      l.emitted.filter (·.sighting.asm = 7) = [e] ∧
      ∃ w ∈ [firstWindow, secondWindow], ∃ x a, logDownlink.At zeroSha1 sessionParams w x a ∧
        e.record = some (logDownlink.recorded sessionParams.opts a e.outside.setting) := by
  obtain ⟨r, hr, hpol, hoff⟩ := onlyLog_first.taken
  obtain ⟨r', hr', hpol', hoff'⟩ := onlyLog_second.taken
  have hsightings :
      sightings zeroSha1 sessionParams 100 none [firstWindow, secondWindow] = [⟨7, 0, 8⟩, ⟨7, 40, 0⟩] := by
    unfold sightings
    rw [List.flatMap_cons, List.flatMap_cons, List.flatMap_nil, hr, hr']
    unfold AirWindow.sighting
    rw [List.map_singleton, List.map_singleton, hoff, hoff']
    rfl
  refine downlink_recorded zeroSha1 params48k 100 _ none _ rfl rfl rfl ?_ ?_ logDownlink_sound ?_ ?_
  · exact List.forall_mem_cons.mpr ⟨onlyLog_first.length_le, List.forall_mem_singleton.mpr onlyLog_second.length_le⟩
  · rw [hsightings]
    refine runOk_of_separate params48k (by decide) (by decide) ?_
    intro before s after heq hseen
    match before, heq with
    | [], _ => simp at hseen
    | [_], heq =>
      simp only [List.cons_append, List.nil_append, List.cons.injEq] at heq
      obtain ⟨rfl, rfl, -⟩ := heq
      decide
    | _ :: _ :: _, heq => simp at heq
  · exact ⟨firstWindow, List.mem_cons_self, _, _, onlyLog_first.arrives, onlyLog_first.reached, rfl⟩
  · refine List.forall_mem_cons.mpr ⟨fun q hq _ => ?_, List.forall_mem_singleton.mpr fun q hq _ => ?_⟩
    · rw [hr] at hq
      rw [List.mem_singleton.mp hq, hpol, hoff]
      exact ⟨_, onlyLog_first.arrives⟩
    · rw [hr'] at hq
      rw [List.mem_singleton.mp hq, hpol', hoff']
      exact ⟨_, onlyLog_second.arrives⟩

end SimpleSatOps.RxSession
