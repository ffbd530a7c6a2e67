import SimpleSatOps.Dsp.ModemIq
import SimpleSatOps.Lib.Retry
import SimpleSatOps.Proto.Ax100.Channel
import SimpleSatOps.Proto.Ax100.Locs

/-!
# Decoding a window (`decode_loop.c`)

`tryDecodeWindowIq` unframes one sync match after the other until a packet comes out; the session calls it again from
behind each packet.

* `unframeWithRescue` : `ax100_unframe`, then the retry without Reed-Solomon;
* `unframeWithRescue_forget` : the array of error locations does not influence the rest;
* `tried` : the matches an endless search would visit;
* `decodeWindow_spec` : a session visits these, until 256 in a row fail.
-/

namespace SimpleSatOps.DecodeLoop
open Rs Golay24 Ax100 ModemIq AsmSearch FirstMin

/-- The arguments of `try_decode_window_iq` that stay the same for a window. -/
structure Params where
  opts : Opts
  syncMaxHam : ℕ
  allowPartialRs : Bool
  bytesCap : ℕ
  packetCap : ℕ

/-- A window decoded, with the local `polarity_used`. -/
structure WindowFrame where
  unframed : Unframed
  packetLen : ℕ
  syncOff : ℕ
  polarityUsed : Bool

/-- `MAX_ATTEMPTS`. -/
abbrev maxAttempts : ℕ := 256

section Loop
variable (sha1 : List UInt8 → Bytes 20)

/-- `ax100_unframe_with_rescue`. -/
def unframeWithRescue (bytes : List UInt8) (opts : Opts) (allowPartialRs : Bool) (packetCap : ℕ)
    (rsLocs : Option (List ℤ)) : Unframed :=
  let u := unframe sha1 bytes opts packetCap rsLocs
  if u.ret.isSome then u
  else if allowPartialRs ∧ opts.reedSolomon ∧ u.golayErrors = 0 then
    let p := unframe sha1 bytes { opts with reedSolomon := false } packetCap none
    match p.ret with
    | some pp =>
      if pp > 32 then
        { p with ret := some (pp - 32), hmacOk := -1, rsErrors := -2, rsLocs := u.rsLocs }
      else { u with outPacket := p.outPacket }
    | none => { u with outPacket := p.outPacket }
  else u

variable (p : Params) (strobes : List ℤ)

/-- The loop of `try_decode_window_iq` with `k` attempts left. -/
def tryDecodeLoop : ℕ → ℕ → Option (List ℤ) → Option WindowFrame
  | 0, _, _ => none
  | k + 1, minOffset, rsLocs =>
    match modemIqToBits strobes false p.syncMaxHam minOffset with
    | none => none
    | some sync =>
      if sync.outBits.length = 0 then tryDecodeLoop k (sync.syncBitOffset + 1) rsLocs
      else if (sync.outBits.length + 7) / 8 > p.bytesCap then tryDecodeLoop k (sync.syncBitOffset + 1) rsLocs
      else
        let u := unframeWithRescue sha1 (modemBitsToBytes sync.outBits) p.opts p.allowPartialRs p.packetCap rsLocs
        match u.ret with
        | none => tryDecodeLoop k (sync.syncBitOffset + 1) u.rsLocs
        | some plen => some ⟨u, plen, sync.syncBitOffset, sync.polarityUsed⟩

/-- `try_decode_window_iq`; `none` when it returns 0. -/
def tryDecodeWindowIq (minOffsetIn : ℕ) (rsLocs : Option (List ℤ)) : Option WindowFrame :=
  tryDecodeLoop sha1 p strobes maxAttempts minOffsetIn rsLocs

/-- The calls of `try_decode_iq_at_window`, `inner_min_offset` being one more than the last `sync_off`; `none` when
the fuel ends first. -/
def decodeWindow (rsLocs : Option (List ℤ)) : ℕ → ℕ → Option (List WindowFrame)
  | 0, _ => none
  | fuel + 1, innerMinOffset =>
    match tryDecodeWindowIq sha1 p strobes innerMinOffset rsLocs with
    | none => some []
    | some r => (decodeWindow rsLocs fuel (r.syncOff + 1)).map (r :: ·)

/-! ## One attempt -/

theorem unframeWithRescue_agree (bytes : List UInt8) (opts : Opts) (allowPartialRs : Bool) (packetCap : ℕ)
    (locs locs' : Option (List ℤ)) :
    (unframeWithRescue sha1 bytes opts allowPartialRs packetCap locs).Agree
      (unframeWithRescue sha1 bytes opts allowPartialRs packetCap locs') := by
  have h := unframe_agree sha1 opts packetCap locs locs' bytes
  unfold unframeWithRescue
  generalize unframe sha1 bytes opts packetCap locs = u at *
  generalize unframe sha1 bytes opts packetCap locs' = u' at *
  dsimp only
  rw [h.ret, h.golayErrors]
  generalize unframe sha1 bytes { opts with reedSolomon := false } packetCap none = partly
  split_ifs
  · exact h
  · cases hpp : partly.ret with
    | none => exact ⟨rfl, rfl, rfl, h.hmacOk, h.rsErrors, h.usedGolayLen⟩
    | some pp =>
      dsimp only
      split_ifs
      · exact ⟨rfl, rfl, rfl, rfl, rfl, rfl⟩
      · exact ⟨rfl, rfl, rfl, h.hmacOk, h.rsErrors, h.usedGolayLen⟩
  · exact h

theorem unframeWithRescue_of_isSome {bytes : List UInt8} {opts : Opts} {packetCap : ℕ} {rsLocs : Option (List ℤ)}
    (h : (unframe sha1 bytes opts packetCap rsLocs).ret.isSome = true) (allowPartialRs : Bool) :
    unframeWithRescue sha1 bytes opts allowPartialRs packetCap rsLocs = unframe sha1 bytes opts packetCap rsLocs := by
  unfold unframeWithRescue
  exact if_pos h

/-- A frame is unframed, whatever follows it. -/
theorem unframeWithRescue_intact {opts : Opts} {packet inner : List UInt8} {packetCap : ℕ}
    (hlenField : opts.lenField = true) (hsync : opts.syncword = true) (h : Framed sha1 opts packet inner)
    (hne : withHmac sha1 opts packet ≠ []) (hcap : packet.length ≤ packetCap) (trailing : List UInt8)
    (allowPartialRs : Bool) (rsLocs : Option (List ℤ)) :
    (unframeWithRescue sha1 (asm ++ golayHeader inner.length ++ onWire opts inner ++ trailing) opts allowPartialRs
        packetCap rsLocs).ret = some packet.length ∧
      (unframeWithRescue sha1 (asm ++ golayHeader inner.length ++ onWire opts inner ++ trailing) opts allowPartialRs
        packetCap rsLocs).outPacket.take packet.length = packet := by
  obtain ⟨locs', hun⟩ := unframe_near sha1 hlenField hsync h hne hcap
    (show (golayHeader inner.length).length = 3 from rfl)
    (show headerFlips (golayHeader inner.length) (golayHeader inner.length) ≤ 3 by simp) (length_onWire opts inner)
    (show hamming (onWire opts inner) (onWire opts inner) ≤ _ by simp) trailing []
  have hagree := unframe_agree sha1 opts packetCap rsLocs (some [])
    (asm ++ golayHeader inner.length ++ onWire opts inner ++ trailing)
  rw [hun] at hagree
  have hret := hagree.ret
  have hpacket := hagree.outPacket
  dsimp only at hret hpacket
  rw [unframeWithRescue_of_isSome sha1 (by rw [hret]; rfl)]
  refine ⟨hret, ?_⟩
  rw [hpacket]
  exact take_overlay _ _

/-- A polarity and an offset. -/
abbrev Spot : Type := Bool × ℕ

/-- What unframing returns for the bits from a spot on. -/
def frameAt (x : Spot) : Unframed :=
  unframeWithRescue sha1 (modemBitsToBytes ((slicer x.1 strobes).drop x.2)) p.opts p.allowPartialRs p.packetCap none

/-- Unframing succeeds. -/
def ok (x : Spot) : Bool := (frameAt sha1 p strobes x).ret.isSome

/-- The result `r` is the frame at its spot. -/
structure WindowFrame.IsFrameAt (r : WindowFrame) (x : Spot) : Prop where
  polarityUsed : r.polarityUsed = x.1
  syncOff : r.syncOff = x.2
  unframed : r.unframed.Agree (frameAt sha1 p strobes x)
  packetLen : (frameAt sha1 p strobes x).ret = some r.packetLen

/-- The loop after a match: it returns the frame there, or goes on behind it. -/
theorem tryDecodeLoop_succ (hcap : (strobes.length + 7) / 8 ≤ p.bytesCap) {k minOffset : ℕ} {x : Spot}
    {rsLocs : Option (List ℤ)} (hx : x.2 < strobes.length)
    (hsync : modemIqToBits strobes false p.syncMaxHam minOffset = some ⟨(slicer x.1 strobes).drop x.2, x.2, x.1⟩) :
    if ok sha1 p strobes x then
      ∃ r, tryDecodeLoop sha1 p strobes (k + 1) minOffset rsLocs = some r ∧ r.IsFrameAt sha1 p strobes x
    else ∃ locs, tryDecodeLoop sha1 p strobes (k + 1) minOffset rsLocs =
      tryDecodeLoop sha1 p strobes k (x.2 + 1) locs := by
  have hlen : ((slicer x.1 strobes).drop x.2).length = strobes.length - x.2 := by
    unfold slicer
    rw [List.length_drop, List.length_map]
  have hagree := unframeWithRescue_agree sha1 (modemBitsToBytes ((slicer x.1 strobes).drop x.2)) p.opts
    p.allowPartialRs p.packetCap rsLocs none
  have hloop : tryDecodeLoop sha1 p strobes (k + 1) minOffset rsLocs =
      match (unframeWithRescue sha1 (modemBitsToBytes ((slicer x.1 strobes).drop x.2)) p.opts p.allowPartialRs
        p.packetCap rsLocs).ret with
      | none => tryDecodeLoop sha1 p strobes k (x.2 + 1) (unframeWithRescue sha1
        (modemBitsToBytes ((slicer x.1 strobes).drop x.2)) p.opts p.allowPartialRs p.packetCap rsLocs).rsLocs
      | some plen => some ⟨unframeWithRescue sha1 (modemBitsToBytes ((slicer x.1 strobes).drop x.2)) p.opts
        p.allowPartialRs p.packetCap rsLocs, plen, x.2, x.1⟩ := by
    rw [tryDecodeLoop, hsync]
    dsimp only
    rw [hlen, if_neg (by omega), if_neg (by omega)]
  rw [hloop]
  generalize unframeWithRescue sha1 (modemBitsToBytes ((slicer x.1 strobes).drop x.2)) p.opts p.allowPartialRs
    p.packetCap rsLocs = u at *
  have hret : u.ret = (frameAt sha1 p strobes x).ret := hagree.ret
  unfold ok
  rw [← hret]
  cases hu : u.ret with
  | none => exact ⟨u.rsLocs, rfl⟩
  | some plen => exact ⟨_, rfl, rfl, rfl, hagree, hret.symm.trans hu⟩

end Loop

/-! ## The matches tried -/

section Tried
variable (syncMaxHam : ℕ) (strobes : List ℤ)

/-- The number of offsets with 32 bits behind them. -/
abbrev offsets : ℕ := strobes.length - 31

/-- Every match of normal polarity starts before `off`. -/
def AfterNormal (off : ℕ) : Prop := ∀ j < offsets strobes, Candidate strobes syncMaxHam false j → j < off

instance (off : ℕ) : Decidable (AfterNormal syncMaxHam strobes off) :=
  inferInstanceAs (Decidable (∀ j < offsets strobes, _))

/-- The matches of one polarity from `m` on that no later one of this polarity beats. -/
def leaders (invert : Bool) (m : ℕ) : List ℕ :=
  unbeaten (syncDist strobes invert) (Candidate strobes syncMaxHam invert) (offsets strobes) m

/-- The matches an endless search from `m` on tries: the leaders of normal polarity, then those of inverted polarity
behind the last match of normal polarity. -/
def tried (m : ℕ) : List Spot :=
  (leaders syncMaxHam strobes false m).map (Prod.mk false) ++
    ((leaders syncMaxHam strobes true m).filter fun off => AfterNormal syncMaxHam strobes off).map (Prod.mk true)

variable {syncMaxHam strobes} {m : ℕ}

theorem tried_of_normal {off : ℕ}
    (h : Best (syncDist strobes false) (Candidate strobes syncMaxHam false) m (offsets strobes) (some off)) :
    tried syncMaxHam strobes m = (false, off) :: tried syncMaxHam strobes (off + 1) := by
  unfold tried
  have hlead : leaders syncMaxHam strobes false m = off :: leaders syncMaxHam strobes false (off + 1) :=
    unbeaten_of_some h
  have hbehind : ∀ k < off + 1, m ≤ k → ¬ AfterNormal syncMaxHam strobes k := by
    intro k hk _ hafter
    have hlt := hafter off h.lt_hi h.candidate
    omega
  unfold leaders at hlead ⊢
  rw [hlead, filter_unbeaten_of_le (h.lo_le.trans (Nat.le_succ off)) _ hbehind]
  rfl

theorem tried_of_inverted {off : ℕ}
    (hnormal : Best (syncDist strobes false) (Candidate strobes syncMaxHam false) m (offsets strobes) none)
    (h : Best (syncDist strobes true) (Candidate strobes syncMaxHam true) m (offsets strobes) (some off)) :
    tried syncMaxHam strobes m = (true, off) :: tried syncMaxHam strobes (off + 1) := by
  have hlo := h.lo_le
  have hnone : ∀ k, m ≤ k → leaders syncMaxHam strobes false k = [] := fun k hk =>
    unbeaten_of_none fun j hj hlt => hnormal j (hk.trans hj) hlt
  have hlead : leaders syncMaxHam strobes true m = off :: leaders syncMaxHam strobes true (off + 1) :=
    unbeaten_of_some h
  have hafter : AfterNormal syncMaxHam strobes off := by
    intro j hj hcand
    by_contra hge
    exact hnormal j (by omega) hj hcand
  have hfilter : (off :: leaders syncMaxHam strobes true (off + 1)).filter (fun k => AfterNormal syncMaxHam strobes k) =
      off :: (leaders syncMaxHam strobes true (off + 1)).filter fun k => AfterNormal syncMaxHam strobes k :=
    List.filter_cons_of_pos (decide_eq_true hafter)
  unfold tried
  rw [hnone m le_rfl, hnone (off + 1) (by omega), hlead, hfilter]
  rfl

theorem tried_of_none
    (hnormal : Best (syncDist strobes false) (Candidate strobes syncMaxHam false) m (offsets strobes) none)
    (h : Best (syncDist strobes true) (Candidate strobes syncMaxHam true) m (offsets strobes) none) :
    tried syncMaxHam strobes m = [] := by
  unfold tried leaders
  rw [unbeaten_of_none hnormal, unbeaten_of_none h]
  rfl

/-- **One search**: it returns the head of `tried`, and `tried` goes on behind it. -/
theorem modemIqToBits_tried (syncMaxHam : ℕ) (strobes : List ℤ) (m : ℕ) :
    (modemIqToBits strobes false syncMaxHam m = none ∧ tried syncMaxHam strobes m = []) ∨
      ∃ x : Spot, modemIqToBits strobes false syncMaxHam m = some ⟨(slicer x.1 strobes).drop x.2, x.2, x.1⟩ ∧
        tried syncMaxHam strobes m = x :: tried syncMaxHam strobes (x.2 + 1) ∧ m ≤ x.2 ∧ x.2 < offsets strobes := by
  obtain ⟨normal, inverted, hnormal, hinverted, hsync⟩ := modemIqToBits_spec strobes syncMaxHam m
  rw [hsync]
  cases normal with
  | some off => exact .inr ⟨(false, off), rfl, tried_of_normal hnormal, hnormal.lo_le, hnormal.lt_hi⟩
  | none =>
    cases inverted with
    | some off => exact .inr ⟨(true, off), rfl, tried_of_inverted hnormal hinverted, hinverted.lo_le, hinverted.lt_hi⟩
    | none => exact .inl ⟨rfl, tried_of_none hnormal hinverted⟩

end Tried

/-! ## A session over one window -/

section Session
variable (sha1 : List UInt8 → Bytes 20) (p : Params) (strobes : List ℤ)

/-- What the session returns when it has `k` attempts left at `m`. -/
abbrev visited (k m : ℕ) : List Spot :=
  Retry.walk (ok sha1 p strobes) maxAttempts k (tried p.syncMaxHam strobes m)

/-- **One call**: it returns the next frame of the walk, or the walk has ended. -/
theorem tryDecodeLoop_spec (hcap : (strobes.length + 7) / 8 ≤ p.bytesCap) (k : ℕ) : ∀ (m : ℕ)
    (rsLocs : Option (List ℤ)),
    (tryDecodeLoop sha1 p strobes k m rsLocs = none ∧ visited sha1 p strobes k m = []) ∨
      ∃ r x, tryDecodeLoop sha1 p strobes k m rsLocs = some r ∧ r.IsFrameAt sha1 p strobes x ∧
        visited sha1 p strobes k m = x :: visited sha1 p strobes maxAttempts (x.2 + 1) ∧ m ≤ x.2 ∧
          x.2 < offsets strobes := by
  induction k with
  | zero => exact fun m rsLocs => .inl ⟨rfl, Retry.walk_zero _⟩
  | succ k ih =>
    intro m rsLocs
    unfold visited
    rcases modemIqToBits_tried p.syncMaxHam strobes m with ⟨hsync, htried⟩ | ⟨x, hsync, htried, hlo, hhi⟩
    · refine .inl ⟨?_, ?_⟩
      · unfold tryDecodeLoop
        rw [hsync]
      · rw [htried, Retry.walk_nil]
    · have hx : x.2 < strobes.length := by
        unfold offsets at hhi
        omega
      have hnext := @tryDecodeLoop_succ sha1 p strobes hcap k m x rsLocs hx hsync
      rw [htried, Retry.walk_succ_cons]
      by_cases hok : ok sha1 p strobes x = true
      · rw [if_pos hok] at hnext ⊢
        obtain ⟨r, hr, hframe⟩ := hnext
        exact .inr ⟨r, x, hr, hframe, rfl, hlo, hhi⟩
      · rw [if_neg hok] at hnext ⊢
        obtain ⟨locs, hloop⟩ := hnext
        rw [hloop]
        rcases ih (x.2 + 1) locs with h | ⟨r, y, hr, hframe, hwalk, hlo', hhi'⟩
        · exact .inl h
        · exact .inr ⟨r, y, hr, hframe, hwalk, by omega, hhi'⟩

/-- **The session**: it ends, and returns the frames of the walk in order. -/
theorem decodeWindow_spec (hcap : (strobes.length + 7) / 8 ≤ p.bytesCap) (rsLocs : Option (List ℤ)) (fuel : ℕ) :
    ∀ m, offsets strobes - m < fuel → ∃ rs, decodeWindow sha1 p strobes rsLocs fuel m = some rs ∧
      List.Forall₂ (WindowFrame.IsFrameAt sha1 p strobes) rs (visited sha1 p strobes maxAttempts m) := by
  induction fuel with
  | zero => exact fun m h => absurd h (Nat.not_lt_zero _)
  | succ fuel ih =>
    intro m hfuel
    unfold decodeWindow tryDecodeWindowIq
    rcases tryDecodeLoop_spec sha1 p strobes hcap maxAttempts m rsLocs with ⟨hnone, hwalk⟩ |
      ⟨r, x, hr, hframe, hwalk, hlo, hhi⟩
    · rw [hnone, hwalk]
      exact ⟨[], rfl, .nil⟩
    · rw [hr, hwalk]
      dsimp only
      rw [hframe.syncOff]
      obtain ⟨rs, hrs, hall⟩ := ih (x.2 + 1) (by omega)
      rw [hrs]
      exact ⟨r :: rs, rfl, .cons hframe hall⟩

/-- A frame of the window: the bits are the sync word, and unframing succeeds. -/
def IsFrame (x : Spot) : Prop := slice (slicer x.1 strobes) x.2 32 = asmBits ∧ ok sha1 p strobes x = true

theorem IsFrame.lt_offsets {x : Spot} (h : IsFrame sha1 p strobes x) : x.2 < offsets strobes := by
  have hlen := congrArg List.length h.1
  unfold slice slicer at hlen
  rw [List.length_take, List.length_drop, List.length_map] at hlen
  have h32 : asmBits.length = 32 := rfl
  unfold offsets
  omega

/-- A frame is tried unless it is inverted and a match of normal polarity lies behind it. -/
theorem IsFrame.mem_tried_iff {x : Spot} (h : IsFrame sha1 p strobes x) :
    x ∈ tried p.syncMaxHam strobes 0 ↔ (x.1 = true → AfterNormal p.syncMaxHam strobes x.2) := by
  obtain ⟨invert, off⟩ := x
  have hzero : syncDist strobes invert off = 0 := syncDist_of_exact h.1
  have hlead : off ∈ leaders p.syncMaxHam strobes invert 0 := by
    refine mem_unbeaten.mpr ⟨Nat.zero_le _, h.lt_offsets, ?_, fun j _ _ _ => ?_⟩
    · unfold Candidate
      omega
    · omega
  unfold tried
  rw [List.mem_append, List.mem_map, List.mem_map]
  cases invert with
  | false => exact iff_of_true (.inl ⟨off, hlead, rfl⟩) fun hno => absurd hno Bool.false_ne_true
  | true =>
    constructor
    · rintro (⟨off', -, heq⟩ | ⟨off', hoff', heq⟩)
      · cases heq
      · cases heq
        exact fun _ => of_decide_eq_true (List.mem_filter.mp hoff').2
    · exact fun hafter => .inr ⟨off, List.mem_filter.mpr ⟨hlead, decide_eq_true (hafter rfl)⟩, rfl⟩

theorem exists_of_forall₂ {rs : List WindowFrame} {xs : List Spot}
    (h : List.Forall₂ (WindowFrame.IsFrameAt sha1 p strobes) rs xs) :
    (∀ r ∈ rs, ∃ x ∈ xs, r.IsFrameAt sha1 p strobes x) ∧ ∀ x ∈ xs, ∃ r ∈ rs, r.IsFrameAt sha1 p strobes x := by
  induction h with
  | nil => simp
  | @cons r x rs xs hrx _ ih =>
    constructor
    · intro r' hr'
      rcases List.mem_cons.mp hr' with rfl | hr'
      · exact ⟨x, List.mem_cons_self, hrx⟩
      · obtain ⟨y, hy, hry⟩ := ih.1 r' hr'
        exact ⟨y, List.mem_cons_of_mem _ hy, hry⟩
    · intro y hy
      rcases List.mem_cons.mp hy with rfl | hy
      · exact ⟨r, List.mem_cons_self, hrx⟩
      · obtain ⟨r', hr', hry⟩ := ih.2 y hy
        exact ⟨r', List.mem_cons_of_mem _ hr', hry⟩

theorem WindowFrame.IsFrameAt.unique {r : WindowFrame} {x y : Spot} (hx : r.IsFrameAt sha1 p strobes x)
    (hy : r.IsFrameAt sha1 p strobes y) : x = y :=
  Prod.ext (hx.polarityUsed.symm.trans hy.polarityUsed) (hx.syncOff.symm.trans hy.syncOff)

/-- **No frame is lost, exactly when**: every inverted frame starts behind the last match of normal polarity, and
before no frame 256 tried matches in a row fail. -/
theorem frames_returned_iff (hcap : (strobes.length + 7) / 8 ≤ p.bytesCap) (rsLocs : Option (List ℤ)) :
    (∃ rs, decodeWindow sha1 p strobes rsLocs (strobes.length + 1) 0 = some rs ∧
      ∀ x, IsFrame sha1 p strobes x → ∃ r ∈ rs, r.IsFrameAt sha1 p strobes x) ↔
    ∀ x, IsFrame sha1 p strobes x → (x.1 = true → AfterNormal p.syncMaxHam strobes x.2) ∧
      Retry.Patient (ok sha1 p strobes) maxAttempts ((tried p.syncMaxHam strobes 0).takeWhile (· ≠ x)) := by
  obtain ⟨rs, hrs, hall⟩ := decodeWindow_spec sha1 p strobes hcap rsLocs (strobes.length + 1) 0
    (by unfold offsets; omega)
  obtain ⟨hleft, hright⟩ := exists_of_forall₂ sha1 p strobes hall
  have hmem : ∀ x, (∃ r ∈ rs, r.IsFrameAt sha1 p strobes x) ↔ x ∈ visited sha1 p strobes maxAttempts 0 := by
    refine fun x => ⟨?_, hright x⟩
    rintro ⟨r, hr, hrx⟩
    obtain ⟨y, hy, hry⟩ := hleft r hr
    exact (hrx.unique sha1 p strobes hry) ▸ hy
  have hvisited : ∀ x, IsFrame sha1 p strobes x → (x ∈ visited sha1 p strobes maxAttempts 0 ↔
      (x.1 = true → AfterNormal p.syncMaxHam strobes x.2) ∧
        Retry.Patient (ok sha1 p strobes) maxAttempts ((tried p.syncMaxHam strobes 0).takeWhile (· ≠ x))) := by
    intro x hx
    rw [← hx.mem_tried_iff]
    exact Retry.mem_walk_iff_takeWhile hx.2
  rw [hrs]
  constructor
  · rintro ⟨rs', heq, h⟩ x hx
    obtain rfl := Option.some_inj.mp heq
    exact (hvisited x hx).mp ((hmem x).mp (h x hx))
  · exact fun h => ⟨rs, rfl, fun x hx => (hmem x).mpr ((hvisited x hx).mpr (h x hx))⟩

end Session

/-! ## A frame behind a match of the other polarity -/

/-- A session with Reed-Solomon and the default tolerance. -/
def liveParams : Params where
  opts := { Opts.defaults with reedSolomon := true }
  syncMaxHam := 4
  allowPartialRs := true
  bytesCap := 64
  packetCap := 4096

/-- The strobes of bits sent in inverted polarity. -/
def invertedStrobes (bytes : List UInt8) : List ℤ := (toBits bytes).map fun bit => if bit then -1 else 1

/-- The frame of the packet `41` in inverted polarity, then 32 strobes that are four bits away from the sync word in
normal polarity. -/
def maskedStrobes : List ℤ :=
  invertedStrobes
    [147, 11, 81, 222, 75, 144, 33, 190, 18, 90, 217, 31, 8, 51, 83, 223, 222, 18, 35, 174, 174, 52, 67, 142, 26, 15,
      213, 59, 44, 62, 204, 91, 255, 178, 141, 17, 212, 190, 235, 191, 0x6C, 0xF4, 0xAE, 0x2E]

def zeroSha1 (_ : List UInt8) : Bytes 20 := ⟨List.replicate 20 0, rfl⟩

theorem frames_returned_iff_masked :
    (∃ rs, decodeWindow zeroSha1 liveParams maskedStrobes none (maskedStrobes.length + 1) 0 = some rs ∧
      ∀ x, IsFrame zeroSha1 liveParams maskedStrobes x →
        ∃ r ∈ rs, r.IsFrameAt zeroSha1 liveParams maskedStrobes x) ↔
    ∀ x, IsFrame zeroSha1 liveParams maskedStrobes x →
      (x.1 = true → AfterNormal 4 maskedStrobes x.2) ∧
        Retry.Patient (ok zeroSha1 liveParams maskedStrobes) maxAttempts
          ((tried 4 maskedStrobes 0).takeWhile (· ≠ x)) :=
  frames_returned_iff zeroSha1 liveParams maskedStrobes (by decide +kernel) none

/-- The block of the frame before scrambling. -/
def maskedInner : List UInt8 := scramble
  [190, 18, 90, 217, 31, 8, 51, 83, 223, 222, 18, 35, 174, 174, 52, 67, 142, 26, 15, 213, 59, 44, 62, 204, 91, 255, 178,
    141, 17, 212, 190, 235, 191]

theorem frameInner_masked : frameInner zeroSha1 liveParams.opts [0x41] = some maskedInner := by decide +kernel

/-- The frame is exact and unframes, but nothing is returned. -/
theorem masked_frame_lost : (∀ s ∈ maskedStrobes, s ≠ 0) ∧
    ¬ ∃ rs, decodeWindow zeroSha1 liveParams maskedStrobes none (maskedStrobes.length + 1) 0 = some rs ∧
      ∀ x, IsFrame zeroSha1 liveParams maskedStrobes x →
        ∃ r ∈ rs, r.IsFrameAt zeroSha1 liveParams maskedStrobes x := by
  refine ⟨by decide +kernel, ?_⟩
  rintro ⟨rs, hrs, hall⟩
  have hempty : (decodeWindow zeroSha1 liveParams maskedStrobes none (maskedStrobes.length + 1) 0).map
      List.length = some 0 := by decide +kernel
  rw [hrs, Option.map_some, Option.some_inj, List.length_eq_zero_iff] at hempty
  have hinner := frameInner_eq_some zeroSha1 frameInner_masked
  have hbytes : modemBitsToBytes ((slicer true maskedStrobes).drop 0) =
      asm ++ golayHeader maskedInner.length ++ onWire liveParams.opts maskedInner ++ [0x6C, 0xF4, 0xAE, 0x2E] := by
    decide +kernel
  have hret := (unframeWithRescue_intact zeroSha1 rfl rfl hinner (by decide) (show 1 ≤ 4096 by decide)
    [0x6C, 0xF4, 0xAE, 0x2E] true none).1
  have hframe : IsFrame zeroSha1 liveParams maskedStrobes (true, 0) := by
    refine ⟨by decide +kernel, ?_⟩
    unfold ok frameAt
    dsimp only
    rw [hbytes]
    exact congrArg Option.isSome hret
  obtain ⟨r, hr, -⟩ := hall (true, 0) hframe
  rw [hempty] at hr
  cases hr

end SimpleSatOps.DecodeLoop
