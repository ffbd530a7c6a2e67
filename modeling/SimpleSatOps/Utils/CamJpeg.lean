import SimpleSatOps.Lib.CText
import SimpleSatOps.Lib.Fold

/-!
# Camera images from damaged text (`cam_jpeg.c`)

An image comes as sentences of 28 bytes in hexadecimal, each with its index and with the number of sentences. The
decoder places what is left of them.

* `camJpegDecode` : the decoder; `none` is an access outside a buffer;
* `Image.cell` : the byte at a place, if it is present;
* `place_spec` : a sentence brings bytes for the places where there is none;
* `pass2_spec` : on any file, no access is outside, and a byte keeps the first value brought for it.
-/

namespace SimpleSatOps.CamJpeg

/-- `SENTENCE_HEADER_CHARS`: an `@`, the index and the total. -/
abbrev headerChars : ℕ := 9

/-- `SENTENCE_DATA_HEX`. -/
abbrev dataHex : ℕ := 56

/-- `CAM_JPEG_SENTENCE_DATA_BYTES`. -/
abbrev dataBytes : ℕ := 28

/-- `END_SENTINEL_INDEX`. -/
abbrev endSentinel : ℕ := 0xFACE

abbrev atSign : UInt8 := byte '@'

/-! ## The decoder -/

/-- `hexval`; `none` for -1. -/
def hexval (c : UInt8) : Option ℕ :=
  if byte '0' ≤ c ∧ c ≤ byte '9' then some (c.toNat - (byte '0').toNat)
  else if byte 'a' ≤ c ∧ c ≤ byte 'f' then some (c.toNat - (byte 'a').toNat + 10)
  else if byte 'A' ≤ c ∧ c ≤ byte 'F' then some (c.toNat - (byte 'A').toNat + 10)
  else none

def isHex (c : UInt8) : Bool := (hexval c).isSome

/-- `parse_hex`; `none` for -1. -/
def parseHex (p : List UInt8) (n : ℕ) : Option ℕ := (p.take n).foldlM (fun v c => (hexval c).map (v * 16 + ·)) 0

/-- `mode_value`; -1 without values. -/
def modeValue (vals : List ℕ) : ℤ :=
  (vals.foldl (fun best v => if best.2 < vals.count v then ((v : ℤ), vals.count v) else best) ((-1 : ℤ), 0)).1

/-- `totals` and `max_index`. -/
structure Votes where
  totals : List ℕ
  maxIndex : ℤ
deriving DecidableEq

/-- What pass 1 does at a position, with the file from there on. -/
def Votes.vote (v : Votes) (f : List UInt8) : Votes :=
  if f.head? ≠ some atSign then v
  else
    match parseHex (f.drop 1) 4 with
    | none => v
    | some index =>
      if index = endSentinel then v
      else
        { maxIndex := if index > v.maxIndex then index else v.maxIndex
          totals :=
            match parseHex (f.drop 5) 4 with
            | none => v.totals
            | some total => if total ≠ endSentinel then v.totals ++ [total] else v.totals }

/-- Pass 1; the loop ends where no header fits. -/
def pass1 : List UInt8 → Votes → Votes
  | [], v => v
  | c :: f, v => if (c :: f).length < headerChars then v else pass1 f (v.vote (c :: f))

/-- `n_sentences`. -/
def nSentences (v : Votes) : ℤ :=
  let declaredTotal := modeValue v.totals
  if declaredTotal ≤ 0 ∨ v.maxIndex ≥ declaredTotal then v.maxIndex + 1 else declaredTotal

/-- `img` and `present`, with `saw_end_sentinel`. -/
structure Image where
  img : List UInt8
  present : List Bool
  sawEndSentinel : Bool
deriving DecidableEq

/-- The byte in two digits of a payload. -/
def payloadByte (q : List UInt8) (b : ℕ) : Option UInt8 := do
  let hi ← (q[2 * b]?).bind hexval
  let lo ← (q[2 * b + 1]?).bind hexval
  some (UInt8.ofNat (hi <<< 4 ||| lo))

/-- The loop body of pass 2 for one byte of a payload; at the end of the image the source leaves the loop. -/
def placeByte (q : List UInt8) (base : ℕ) (im : Image) (b : ℕ) : Option Image := do
  let off := base + b
  if im.img.length ≤ off then some im
  else
    let there ← im.present[off]?
    if there then some im
    else
      let v ← payloadByte q b
      let img ← store im.img off v
      let present ← store im.present off true
      some { im with img := img, present := present }

/-- `nbytes`: pairs of digits in front of the first character that is none. -/
def nBytes (q : List UInt8) : ℕ := ((q.take dataHex).takeWhile isHex).length / 2

/-- What pass 2 does at a position. -/
def Image.place (n : ℕ) (im : Image) (f : List UInt8) : Option Image :=
  if f.head? ≠ some atSign then some im
  else
    match parseHex (f.drop 1) 4 with
    | none => some im
    | some index =>
      if index = endSentinel then some { im with sawEndSentinel := true }
      else if n ≤ index then some im
      else
        let q := f.drop headerChars
        (List.range (nBytes q)).foldlM (placeByte q (index * dataBytes)) im

/-- Pass 2. -/
def pass2 (n : ℕ) : List UInt8 → Image → Option Image
  | [], im => some im
  | c :: f, im => if (c :: f).length < headerChars then some im else (im.place n (c :: f)).bind (pass2 n f)

/-- `cam_jpeg_stats_t`. -/
structure Stats where
  nSentences : ℕ
  sentencesPresent : ℕ
  partialSentences : ℕ
  imageBytes : ℕ
  recoveredBytes : ℕ
  sawEndSentinel : Bool
deriving DecidableEq

/-- `here`: the bytes of a sentence that are present. -/
def here (present : List Bool) (s : ℕ) : ℕ :=
  (List.range dataBytes).countP fun b => present.getD (s * dataBytes + b) false

/-- The tally per sentence. -/
def tally (n : ℕ) (im : Image) : Stats where
  nSentences := n
  sentencesPresent := (List.range n).countP fun s => 0 < here im.present s
  partialSentences := (List.range n).countP fun s => 0 < here im.present s ∧ here im.present s < dataBytes
  imageBytes := n * dataBytes
  recoveredBytes := ((List.range n).map (here im.present)).sum
  sawEndSentinel := im.sawEndSentinel

/-- The image before pass 2. -/
def Image.blank (n : ℕ) (fill : UInt8) : Image :=
  ⟨List.replicate (n * dataBytes) fill, List.replicate (n * dataBytes) false, false⟩

/-- `cam_jpeg_decode`: `some none` when it returns `NULL`, else the number of sentences and the image with its map. -/
def reconstruct (file : List UInt8) (fill : UInt8) : Option (Option (ℕ × Image)) :=
  let n := nSentences (pass1 file ⟨[], -1⟩)
  if n ≤ 0 then some none
  else (pass2 n.toNat file (.blank n.toNat fill)).map fun im => some (n.toNat, im)

/-- `cam_jpeg_decode`: the image it returns, `none` for `NULL`, and the statistics, or an access outside a buffer. -/
def camJpegDecode (file : List UInt8) (fill : UInt8) : Option (Option (List UInt8 × Stats)) :=
  (reconstruct file fill).map fun result => result.map fun (n, im) => (im.img, tally n im)

/-! ## Any file -/

/-- The byte at `k`, if it is present. -/
def Image.cell (im : Image) (k : ℕ) : Option UInt8 := if im.present.getD k false then some (im.img.getD k 0) else none

/-- The buffers have the size of the image, and absent bytes are filled. -/
structure Image.Wf (im : Image) (size : ℕ) (fill : UInt8) : Prop where
  length_img : im.img.length = size
  length_present : im.present.length = size
  absent : ∀ k < size, im.present.getD k false = false → im.img.getD k 0 = fill

theorem wf_blank (n : ℕ) (fill : UInt8) : (Image.blank n fill).Wf (n * dataBytes) fill where
  length_img := List.length_replicate
  length_present := List.length_replicate
  absent := by
    intro k hk _
    show (List.replicate (n * dataBytes) fill).getD k 0 = fill
    rw [List.getD_eq_getElem?_getD, List.getElem?_replicate, if_pos hk]
    rfl

theorem cell_blank (n : ℕ) (fill : UInt8) (k : ℕ) : (Image.blank n fill).cell k = none := by
  have habsent : (List.replicate (n * dataBytes) false).getD k false = false := by
    rw [List.getD_eq_getElem?_getD, List.getElem?_replicate]
    split_ifs <;> rfl
  unfold Image.cell Image.blank
  rw [if_neg (by rw [habsent]; decide)]

section Place
variable {size : ℕ} {fill : UInt8}

/-- A byte is placed where there is none; a byte that is there stays. -/
theorem placeByte_spec {im : Image} (h : im.Wf size fill) {q : List UInt8} {base b : ℕ} (hoff : base + b < size)
    {v : UInt8} (hv : payloadByte q b = some v) :
    ∃ im', placeByte q base im b = some im' ∧ im'.Wf size fill ∧
      ∀ k, im'.cell k = (im.cell k).or (if k = base + b then some v else none) := by
  have himg : base + b < im.img.length := h.length_img ▸ hoff
  have hpresent : base + b < im.present.length := h.length_present ▸ hoff
  have hget : im.present[base + b]? = some (im.present.getD (base + b) false) := by
    rw [List.getD_eq_getElem?_getD, List.getElem?_eq_getElem hpresent]
    rfl
  unfold placeByte
  dsimp only
  rw [if_neg (by omega), hget]
  simp only [Option.bind_eq_bind, Option.bind_some]
  cases hthere : im.present.getD (base + b) false with
  | true =>
      refine ⟨im, rfl, h, fun k => ?_⟩
      by_cases hk : k = base + b
      · subst hk
        unfold Image.cell
        rw [hthere]
        rfl
      · rw [if_neg hk, Option.or_none]
  | false =>
      rw [if_neg Bool.false_ne_true, hv, Option.bind_some, store_of_lt himg, Option.bind_some, store_of_lt hpresent,
        Option.bind_some]
      refine ⟨_, rfl, ⟨by rw [List.length_set, h.length_img], by rw [List.length_set, h.length_present], ?_⟩, ?_⟩
      · intro k hk habsent
        rw [getD_set hpresent] at habsent
        rw [getD_set himg]
        split_ifs at habsent ⊢
        exact h.absent k hk habsent
      · intro k
        unfold Image.cell
        dsimp only
        rw [getD_set hpresent, getD_set himg]
        by_cases hkb : k = base + b
        · rw [if_pos hkb, if_pos hkb, if_pos hkb, hkb, hthere]
          rfl
        · rw [if_neg hkb, if_neg hkb, if_neg hkb, Option.or_none]

/-- The digits counted are digits. -/
theorem payloadByte_of_lt {q : List UInt8} {b : ℕ} (h : b < nBytes q) : ∃ v, payloadByte q b = some v := by
  have hdigit : ∀ i < 2 * nBytes q, ∃ d, (q[i]?).bind hexval = some d := by
    intro i hi
    have hlen : i < ((q.take dataHex).takeWhile isHex).length := by
      unfold nBytes at hi
      omega
    have hget : ((q.take dataHex).takeWhile isHex)[i]? = q[i]? := by
      have hprefix : (q.take dataHex).takeWhile isHex <+: q :=
        (List.takeWhile_prefix isHex).trans (List.take_prefix dataHex q)
      obtain ⟨t, ht⟩ := hprefix
      conv_rhs => rw [← ht]
      rw [List.getElem?_append_left hlen]
    have hhex := List.mem_takeWhile_imp (List.getElem_mem hlen)
    obtain ⟨d, hd⟩ := Option.isSome_iff_exists.mp (show (hexval _).isSome = true from hhex)
    refine ⟨d, ?_⟩
    rw [← hget, List.getElem?_eq_getElem hlen]
    exact hd
  obtain ⟨hi, hhi⟩ := hdigit (2 * b) (by omega)
  obtain ⟨lo, hlo⟩ := hdigit (2 * b + 1) (by omega)
  refine ⟨UInt8.ofNat (hi <<< 4 ||| lo), ?_⟩
  unfold payloadByte
  rw [hhi, hlo]
  rfl

/-- The byte that a sentence at a position brings for `k`, in an image of `n` sentences. -/
def brings (n : ℕ) (f : List UInt8) (k : ℕ) : Option UInt8 :=
  if f.head? = some atSign then
    match parseHex (f.drop 1) 4 with
    | none => none
    | some index =>
      if index ≠ endSentinel ∧ index < n ∧ index * dataBytes ≤ k ∧ k < index * dataBytes + nBytes (f.drop headerChars)
      then payloadByte (f.drop headerChars) (k - index * dataBytes)
      else none
  else none

theorem nBytes_le (q : List UInt8) : nBytes q ≤ dataBytes := by
  have hle : ((q.take dataHex).takeWhile isHex).length ≤ dataHex :=
    (List.takeWhile_prefix isHex).length_le.trans (List.length_take_le _ _)
  unfold nBytes
  exact Nat.div_le_of_le_mul hle

/-- The digits of a payload add the bytes they make. -/
theorem placePayload_spec {im : Image} (h : im.Wf size fill) {q : List UInt8} {base : ℕ}
    (hfits : base + nBytes q ≤ size) :
    ∃ im', (List.range (nBytes q)).foldlM (placeByte q base) im = some im' ∧ im'.Wf size fill ∧
      ∀ k, im'.cell k = (im.cell k).or
        (if base ≤ k ∧ k < base + nBytes q then payloadByte q (k - base) else none) := by
  refine foldlM_range (P := fun b (im' : Image) => im'.Wf size fill ∧ ∀ k, im'.cell k = (im.cell k).or
    (if base ≤ k ∧ k < base + b then payloadByte q (k - base) else none)) ⟨h, fun k => ?_⟩ (nBytes q) ?_
  · rw [if_neg (by omega), Option.or_none]
  · rintro b hb im₁ ⟨hwf, hcell⟩
    obtain ⟨v, hv⟩ := payloadByte_of_lt hb
    obtain ⟨im₂, hplace, hwf₂, hcell₂⟩ := placeByte_spec hwf (show base + b < size by omega) hv
    refine ⟨im₂, hplace, hwf₂, fun k => ?_⟩
    rw [hcell₂, hcell, Option.or_assoc]
    congr 1
    by_cases hk : k = base + b
    · subst hk
      rw [if_neg (by omega), if_pos rfl, if_pos (by omega), Nat.add_sub_cancel_left, hv]
      rfl
    · rw [if_neg hk, Option.or_none]
      by_cases hin : base ≤ k ∧ k < base + b
      · rw [if_pos hin, if_pos (by omega)]
      · rw [if_neg hin, if_neg (by omega)]

/-- Pass 2 at a position adds what the sentence there brings. -/
theorem place_spec {n : ℕ} {im : Image} (h : im.Wf (n * dataBytes) fill) (f : List UInt8) :
    ∃ im', im.place n f = some im' ∧ im'.Wf (n * dataBytes) fill ∧ ∀ k, im'.cell k = (im.cell k).or (brings n f k) := by
  unfold Image.place brings
  by_cases hat : f.head? = some atSign
  · rw [if_neg (not_not.mpr hat)]
    simp only [if_pos hat]
    cases hindex : parseHex (f.drop 1) 4 with
    | none => exact ⟨im, rfl, h, fun k => (Option.or_none).symm⟩
    | some index =>
        dsimp only
        by_cases hend : index = endSentinel
        · rw [if_pos hend]
          refine ⟨_, rfl, ⟨h.length_img, h.length_present, h.absent⟩, fun k => ?_⟩
          rw [if_neg fun hk => hk.1 hend, Option.or_none]
          rfl
        · rw [if_neg hend]
          by_cases hn : n ≤ index
          · rw [if_pos hn]
            refine ⟨im, rfl, h, fun k => ?_⟩
            rw [if_neg fun hk => Nat.not_lt.mpr hn hk.2.1, Option.or_none]
          · rw [if_neg hn]
            generalize hq : f.drop headerChars = q
            have hfits : index * dataBytes + nBytes q ≤ n * dataBytes := by
              have hle := Nat.mul_le_mul_right dataBytes (Nat.succ_le_of_lt (Nat.lt_of_not_le hn))
              have hq := nBytes_le q
              rw [Nat.succ_mul] at hle
              omega
            obtain ⟨im', hrun, hwf, hcell⟩ := placePayload_spec h hfits
            refine ⟨im', hrun, hwf, fun k => ?_⟩
            rw [hcell k]
            congr 1
            by_cases hk : index * dataBytes ≤ k ∧ k < index * dataBytes + nBytes q
            · rw [if_pos hk, if_pos ⟨hend, Nat.lt_of_not_le hn, hk⟩]
            · rw [if_neg hk, if_neg fun hk' => hk hk'.2.2]
  · rw [if_pos hat]
    refine ⟨im, rfl, h, fun k => ?_⟩
    rw [if_neg hat, Option.or_none]

/-- The first byte brought for `k` in a file. -/
def broughtFirst (n : ℕ) : List UInt8 → ℕ → Option UInt8
  | [], _ => none
  | c :: f, k => if (c :: f).length < headerChars then none else (brings n (c :: f) k).or (broughtFirst n f k)

/-- **Pass 2 on any file**: no access is outside the buffers, and every byte keeps the first value brought for it. -/
theorem pass2_spec {n : ℕ} (f : List UInt8) {im : Image} (h : im.Wf (n * dataBytes) fill) :
    ∃ im', pass2 n f im = some im' ∧ im'.Wf (n * dataBytes) fill ∧
      ∀ k, im'.cell k = (im.cell k).or (broughtFirst n f k) := by
  induction f generalizing im with
  | nil => exact ⟨im, rfl, h, fun k => (Option.or_none).symm⟩
  | cons c f ih =>
      unfold pass2 broughtFirst
      by_cases hlen : (c :: f).length < headerChars
      · rw [if_pos hlen]
        refine ⟨im, rfl, h, fun k => ?_⟩
        rw [if_pos hlen, Option.or_none]
      · rw [if_neg hlen]
        obtain ⟨im₁, hplace, hwf₁, hcell₁⟩ := place_spec h (c :: f)
        obtain ⟨im₂, hrest, hwf₂, hcell₂⟩ := ih hwf₁
        refine ⟨im₂, ?_, hwf₂, fun k => ?_⟩
        · rw [hplace, Option.bind_some, hrest]
        · rw [if_neg hlen, hcell₂, hcell₁, Option.or_assoc]

end Place

end SimpleSatOps.CamJpeg
