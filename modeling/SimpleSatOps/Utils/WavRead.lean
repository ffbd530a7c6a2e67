import SimpleSatOps.Lib.CText
import SimpleSatOps.Lib.LittleEndian

/-!
# Reading WAV files (`wav_read.c`)

The reader walks over the chunks of a file to the first data chunk. It does not skip the byte that pads a chunk of odd
size.

* `wavReadPcm16` : the reader, on the bytes of a file;
* `walk_isSome` : its walk ends;
* `Riff` : the contents of a file, and its bytes with or without padding;
* `wavReadPcm16_iff` : the reader reads files without padding;
* `padded_iff` : when it reads a file with padding.
-/

namespace SimpleSatOps.WavRead

abbrev riffId : List UInt8 := text "RIFF"

abbrev waveId : List UInt8 := text "WAVE"

abbrev fmtId : List UInt8 := text "fmt "

abbrev dataId : List UInt8 := text "data"

/-! ## The reader -/

def readU32Le (p : List UInt8) : ℕ := littleEndian (p.take 4)

def readU16Le (p : List UInt8) : ℕ := littleEndian (p.take 2)

/-- `audio_format`, `channels`, `samp_rate` and `bits_per_sample`. -/
structure Fmt where
  audioFormat : ℕ
  channels : ℕ
  sampRate : ℕ
  bitsPerSample : ℕ
deriving DecidableEq

/-- The fields of `fmt_buf`. -/
def Fmt.read (fmtBuf : List UInt8) : Fmt where
  audioFormat := readU16Le fmtBuf
  channels := readU16Le (fmtBuf.drop 2)
  sampRate := readU32Le (fmtBuf.drop 4)
  bitsPerSample := readU16Le (fmtBuf.drop 14)

/-- What `wav_read_pcm16` leaves in its out-parameters. -/
structure Wav where
  samples : List Int16
  sampRate : ℤ
  channels : ℤ
deriving DecidableEq

/-- An `int16_t` as the file holds it. -/
def sampleBytes (s : Int16) : List UInt8 := leBytes 2 s.toUInt16.toNat

/-- The samples that `fread` puts into an array of `int16_t`. -/
def readSamples : ℕ → List UInt8 → List Int16
  | 0, _ => []
  | n + 1, f => (UInt16.ofNat (readU16Le f)).toInt16 :: readSamples n (f.drop 2)

/-- `(int) samp_rate`. -/
def castInt (rate : ℕ) : ℤ := (BitVec.ofNat 32 rate).toInt

/-- What one round of the loop does: it returns, or goes on from a position with what the last fmt chunk said. -/
inductive Round
  | ret (result : Option Wav)
  | next (f : List UInt8) (fmt : Option Fmt)

/-- One round of the loop. The file is given from the position on, which a seek may leave empty; `fmt` is `none` as
long as `got_fmt` is 0. Memory is always found. -/
def round (f : List UInt8) (fmt : Option Fmt) : Round :=
  if f.length < 8 then .ret none
  else if f.take 4 = fmtId then
    if readU32Le (f.drop 4) < 16 then .ret none
    else if f.length < 8 + 16 then .ret none
    else .next (f.drop (8 + 16 + (readU32Le (f.drop 4) - 16))) (some (Fmt.read (slice f 8 16)))
  else if f.take 4 = dataId then
    match fmt with
    | none => .ret none
    | some fmt =>
      if fmt.audioFormat ≠ 1 then .ret none
      else if fmt.bitsPerSample ≠ 16 then .ret none
      else
        let nSamples := readU32Le (f.drop 4) / 2
        if f.length < 8 + 2 * nSamples then .ret none
        else .ret (some ⟨readSamples nSamples (f.drop 8), castInt fmt.sampRate, fmt.channels⟩)
  else .next (f.drop (8 + readU32Le (f.drop 4))) fmt

/-- The loop over the chunks; `none` when the fuel ends first. -/
def walk : ℕ → List UInt8 → Option Fmt → Option (Option Wav)
  | 0, _, _ => none
  | fuel + 1, f, fmt =>
    match round f fmt with
    | .ret result => some result
    | .next f fmt => walk fuel f fmt

/-- `wav_read_pcm16` on the bytes of a file; `none` for -1. -/
def wavReadPcm16 (file : List UInt8) : Option Wav :=
  if file.length < 12 then none
  else if file.take 4 ≠ riffId ∨ slice file 8 4 ≠ waveId then none
  else (walk (file.length / 8 + 1) (file.drop 12) none).join

/-! ## The walk ends -/

/-- Every round that goes on takes eight bytes of the file at least. -/
theorem length_of_next {f f' : List UInt8} {fmt fmt' : Option Fmt} (h : round f fmt = .next f' fmt') :
    f'.length + 8 ≤ f.length := by
  unfold round at h
  split_ifs at h with hlen hfmt hsize hbuf hdata
  · cases h
    rw [List.length_drop]
    omega
  · cases fmt with
    | none => cases h
    | some fmt =>
        dsimp only at h
        split_ifs at h
  · cases h
    rw [List.length_drop]
    omega

theorem walk_isSome {fuel : ℕ} {f : List UInt8} (h : f.length / 8 < fuel) (fmt : Option Fmt) :
    (walk fuel f fmt).isSome = true := by
  induction fuel generalizing f fmt with
  | zero => exact absurd h (Nat.not_lt_zero _)
  | succ fuel ih =>
      rw [walk]
      cases hround : round f fmt with
      | ret result => rfl
      | next f' fmt' =>
          have hlen := length_of_next hround
          exact ih (by omega) fmt'

/-! ## Samples -/

@[simp] theorem length_sampleBytes (s : Int16) : (sampleBytes s).length = 2 := length_leBytes 2 _

theorem length_flatMap_sampleBytes (samples : List Int16) :
    (samples.flatMap sampleBytes).length = 2 * samples.length := by
  induction samples with
  | nil => rfl
  | cons s samples ih =>
      rw [List.flatMap_cons, List.length_append, length_sampleBytes, ih, List.length_cons]
      omega

theorem readU16Le_sampleBytes (s : Int16) (rest : List UInt8) :
    readU16Le (sampleBytes s ++ rest) = s.toUInt16.toNat := by
  unfold readU16Le
  rw [List.take_left' (length_sampleBytes s)]
  exact littleEndian_leBytes s.toUInt16.toNat_lt

theorem readSamples_flatMap (samples : List Int16) (rest : List UInt8) :
    readSamples samples.length (samples.flatMap sampleBytes ++ rest) = samples := by
  induction samples with
  | nil => rfl
  | cons s samples ih =>
      rw [List.flatMap_cons, List.append_assoc, List.length_cons, readSamples, readU16Le_sampleBytes,
        List.drop_left' (length_sampleBytes s), ih, UInt16.ofNat_toNat, Int16.toInt16_toUInt16]

theorem length_readSamples (n : ℕ) (f : List UInt8) : (readSamples n f).length = n := by
  induction n generalizing f with
  | zero => rfl
  | succ n ih => rw [readSamples, List.length_cons, ih]

theorem sampleBytes_read {f : List UInt8} (h : 2 ≤ f.length) :
    sampleBytes (UInt16.ofNat (readU16Le f)).toInt16 = f.take 2 := by
  have hlen : (f.take 2).length = 2 := List.length_take_of_le h
  have hlt : littleEndian (f.take 2) < 2 ^ 16 := by
    have hlt := littleEndian_lt (f.take 2)
    rw [hlen] at hlt
    exact hlt
  unfold sampleBytes readU16Le
  rw [UInt16.toUInt16_toInt16, UInt16.toNat_ofNat_of_lt' hlt]
  have hbytes := leBytes_littleEndian (f.take 2)
  rw [hlen] at hbytes
  exact hbytes

/-- The samples read are bytes of the file. -/
theorem flatMap_readSamples {n : ℕ} {f : List UInt8} (h : 2 * n ≤ f.length) :
    (readSamples n f).flatMap sampleBytes = f.take (2 * n) := by
  induction n generalizing f with
  | zero => rfl
  | succ n ih =>
      have hrest : 2 * n ≤ (f.drop 2).length := by
        rw [List.length_drop]
        omega
      rw [readSamples, List.flatMap_cons, ih hrest, sampleBytes_read (by omega), ← List.take_add]
      congr 1
      omega

/-! ## The contents of a file -/

/-- The header of a chunk. -/
def chunkHdr (id : List UInt8) (size : ℕ) : List UInt8 := id ++ leBytes 4 size

/-- A chunk in front of the data chunk. -/
structure Chunk where
  id : List UInt8
  body : List UInt8
  pad : UInt8
  length_id : id.length = 4
  length_body : body.length < 2 ^ 32
  not_data : id ≠ dataId
  le_length_fmt : id = fmtId → 16 ≤ body.length

namespace Chunk

/-- The bytes of a chunk; where chunks are padded, a byte follows a body of odd size. -/
def bytes (padded : Bool) (c : Chunk) : List UInt8 :=
  chunkHdr c.id c.body.length ++ c.body ++ if padded ∧ c.body.length % 2 = 1 then [c.pad] else []

theorem bytes_false (c : Chunk) : c.bytes false = chunkHdr c.id c.body.length ++ c.body := by
  unfold bytes
  rw [if_neg fun h => Bool.false_ne_true h.1, List.append_nil]

/-- The format known behind a chunk. -/
def fmtAfter (fmt : Option Fmt) (c : Chunk) : Option Fmt :=
  if c.id = fmtId then some (Fmt.read (c.body.take 16)) else fmt

end Chunk

/-- A RIFF/WAVE file of 16-bit PCM: chunks, the last fmt chunk among them being `fmt`, the data chunk, and what is
behind its samples. -/
structure Riff where
  riffSize : List UInt8
  chunks : List Chunk
  fmt : Fmt
  dataSize : ℕ
  samples : List Int16
  behind : List UInt8
  length_riffSize : riffSize.length = 4
  fmt_eq : chunks.foldl Chunk.fmtAfter none = some fmt
  audioFormat : fmt.audioFormat = 1
  bitsPerSample : fmt.bitsPerSample = 16
  dataSize_lt : dataSize < 2 ^ 32
  length_samples : samples.length = dataSize / 2

/-- The data chunk, with what follows. -/
def dataBytes (dataSize : ℕ) (samples : List Int16) (behind : List UInt8) : List UInt8 :=
  chunkHdr dataId dataSize ++ (samples.flatMap sampleBytes ++ behind)

namespace Riff

/-- The file, with padded chunks or without. -/
def bytes (padded : Bool) (w : Riff) : List UInt8 :=
  riffId ++ w.riffSize ++ waveId ++
    (w.chunks.flatMap (Chunk.bytes padded) ++ dataBytes w.dataSize w.samples w.behind)

/-- The samples, the sample rate and the number of channels. -/
def contents (w : Riff) : Wav := ⟨w.samples, w.fmt.sampRate, w.fmt.channels⟩

end Riff

/-! ## Rounds -/

section Header
variable {id : List UInt8} (hid : id.length = 4) (size : ℕ) (f : List UInt8)
include hid

theorem length_chunkHdr : (chunkHdr id size).length = 8 := by
  rw [chunkHdr, List.length_append, hid, length_leBytes]

theorem take_chunkHdr : (chunkHdr id size ++ f).take 4 = id := by
  rw [chunkHdr, List.append_assoc, List.take_left' hid]

theorem drop_chunkHdr (k : ℕ) : (chunkHdr id size ++ f).drop (8 + k) = f.drop k := by
  rw [← List.drop_drop, List.drop_left' (length_chunkHdr hid size)]

theorem readU32Le_chunkHdr {size : ℕ} (hsize : size < 2 ^ 32) :
    readU32Le ((chunkHdr id size ++ f).drop 4) = size := by
  unfold readU32Le
  rw [chunkHdr, List.append_assoc, List.drop_left' hid, List.take_left' (length_leBytes 4 size)]
  exact littleEndian_leBytes hsize

end Header

/-- The header at a position, read back. -/
theorem chunkHdr_append_drop {f : List UInt8} (h : 8 ≤ f.length) :
    f = chunkHdr (f.take 4) (readU32Le (f.drop 4)) ++ f.drop 8 := by
  have hlen : ((f.drop 4).take 4).length = 4 := by
    rw [List.length_take, List.length_drop]
    omega
  have hsize : leBytes 4 (readU32Le (f.drop 4)) = (f.drop 4).take 4 := by
    have hbytes := leBytes_littleEndian ((f.drop 4).take 4)
    rw [hlen] at hbytes
    exact hbytes
  rw [chunkHdr, hsize, List.append_assoc, show f.drop 8 = (f.drop 4).drop 4 by rw [List.drop_drop],
    List.take_append_drop, List.take_append_drop]

/-- A chunk without padding is skipped. -/
theorem round_chunk (c : Chunk) (rest : List UInt8) (fmt : Option Fmt) :
    round (c.bytes false ++ rest) fmt = .next rest (c.fmtAfter fmt) := by
  have hbytes : c.bytes false ++ rest = chunkHdr c.id c.body.length ++ (c.body ++ rest) := by
    rw [Chunk.bytes_false, List.append_assoc]
  have hlen : (chunkHdr c.id c.body.length ++ (c.body ++ rest)).length = 8 + c.body.length + rest.length := by
    rw [List.length_append, List.length_append, length_chunkHdr c.length_id]
    omega
  rw [hbytes]
  unfold round
  rw [if_neg (by omega), take_chunkHdr c.length_id, readU32Le_chunkHdr c.length_id _ c.length_body, hlen,
    if_neg c.not_data, drop_chunkHdr c.length_id, List.drop_left]
  unfold Chunk.fmtAfter
  by_cases hfmt : c.id = fmtId
  · have hbody := c.le_length_fmt hfmt
    have hslice : slice (chunkHdr c.id c.body.length ++ (c.body ++ rest)) 8 16 = c.body.take 16 := by
      unfold slice
      rw [drop_chunkHdr c.length_id _ _ 0, List.drop_zero, List.take_append_of_le_length hbody]
    rw [if_pos hfmt, if_pos hfmt, if_neg (by omega), if_neg (by omega), hslice,
      show 8 + 16 + (c.body.length - 16) = 8 + c.body.length by omega, drop_chunkHdr c.length_id, List.drop_left]
  · rw [if_neg hfmt, if_neg hfmt]

theorem round_data {fmt : Fmt} (haudio : fmt.audioFormat = 1) (hbits : fmt.bitsPerSample = 16) {dataSize : ℕ}
    (hsize : dataSize < 2 ^ 32) {samples : List Int16} (hsamples : samples.length = dataSize / 2)
    (behind : List UInt8) : round (dataBytes dataSize samples behind) (some fmt) =
      .ret (some ⟨samples, castInt fmt.sampRate, fmt.channels⟩) := by
  have hid : dataId.length = 4 := rfl
  have hlen : (dataBytes dataSize samples behind).length = 8 + (2 * samples.length + behind.length) := by
    unfold dataBytes
    rw [List.length_append, List.length_append, length_chunkHdr hid, length_flatMap_sampleBytes]
  unfold dataBytes at hlen ⊢
  unfold round
  rw [if_neg (by omega), take_chunkHdr hid, readU32Le_chunkHdr hid _ hsize, if_neg (by decide), if_pos rfl]
  dsimp only
  rw [if_neg (not_not.mpr haudio), if_neg (not_not.mpr hbits), if_neg (by omega), drop_chunkHdr hid _ _ 0,
    List.drop_zero, ← hsamples, readSamples_flatMap]

theorem readU32Le_lt (p : List UInt8) : readU32Le p < 2 ^ 32 := by
  have hlt := littleEndian_lt (p.take 4)
  have hpow : 256 ^ (p.take 4).length ≤ 256 ^ 4 := Nat.pow_le_pow_right (by omega) (List.length_take_le 4 p)
  unfold readU32Le
  omega

/-- The chunk at a position that the file holds whole. -/
theorem exists_chunk {f : List UInt8} {size : ℕ} (hsize : readU32Le (f.drop 4) = size) (hlen : 8 + size ≤ f.length)
    (hdata : f.take 4 ≠ dataId) (hfmt : f.take 4 = fmtId → 16 ≤ size) :
    ∃ c : Chunk, c.id = f.take 4 ∧ c.body = slice f 8 size ∧ f = c.bytes false ++ f.drop (8 + size) := by
  have hbody : (slice f 8 size).length = size := by
    rw [slice, List.length_take, List.length_drop]
    omega
  refine ⟨⟨f.take 4, slice f 8 size, 0, List.length_take_of_le (by omega), ?_, hdata, ?_⟩, rfl, rfl, ?_⟩
  · rw [hbody, ← hsize]
    exact readU32Le_lt _
  · rw [hbody]
    exact hfmt
  · have hsplit := chunkHdr_append_drop (f := f) (by omega)
    rw [hsize] at hsplit
    rw [Chunk.bytes_false]
    show f = chunkHdr (f.take 4) (slice f 8 size).length ++ slice f 8 size ++ f.drop (8 + size)
    rw [hbody, List.append_assoc, slice, ← List.drop_drop, List.take_append_drop]
    exact hsplit

/-- A round that goes on inside the file has skipped a chunk without padding. -/
theorem chunk_of_next {f f' : List UInt8} {fmt fmt' : Option Fmt} (h : round f fmt = .next f' fmt') (hne : f' ≠ []) :
    ∃ c : Chunk, f = c.bytes false ++ f' ∧ fmt' = c.fmtAfter fmt := by
  unfold round at h
  split_ifs at h with hlen hfmt hsize hbuf hdata
  · obtain ⟨rfl, rfl⟩ := Round.next.inj h
    have hskip : 8 + 16 + (readU32Le (f.drop 4) - 16) = 8 + readU32Le (f.drop 4) := by omega
    rw [hskip] at hne ⊢
    have hwhole : 8 + readU32Le (f.drop 4) < f.length := List.length_lt_of_drop_ne_nil hne
    obtain ⟨c, hid, hbody, hf⟩ := exists_chunk rfl hwhole.le (by rw [hfmt]; decide) fun _ => by omega
    refine ⟨c, hf, ?_⟩
    unfold Chunk.fmtAfter
    rw [if_pos (hid.trans hfmt), hbody, slice, slice, List.take_take, Nat.min_eq_left (by omega)]
  · cases fmt with
    | none => cases h
    | some fmt =>
        dsimp only at h
        split_ifs at h
  · obtain ⟨rfl, rfl⟩ := Round.next.inj h
    have hwhole : 8 + readU32Le (f.drop 4) < f.length := List.length_lt_of_drop_ne_nil hne
    obtain ⟨c, hid, -, hf⟩ := exists_chunk rfl hwhole.le hdata fun hfmt' => absurd hfmt' hfmt
    refine ⟨c, hf, ?_⟩
    unfold Chunk.fmtAfter
    rw [if_neg (hid ▸ hfmt)]

theorem data_of_ret {f : List UInt8} {fmt : Option Fmt} {w : Wav} (h : round f fmt = .ret (some w)) :
    ∃ (fmt' : Fmt) (dataSize : ℕ) (samples : List Int16) (behind : List UInt8), fmt = some fmt' ∧
      fmt'.audioFormat = 1 ∧ fmt'.bitsPerSample = 16 ∧ dataSize < 2 ^ 32 ∧ samples.length = dataSize / 2 ∧
      f = dataBytes dataSize samples behind ∧ w = ⟨samples, castInt fmt'.sampRate, fmt'.channels⟩ := by
  unfold round at h
  split_ifs at h with hlen hfmt hsize hbuf hdata
  · cases h
  · cases h
  · cases h
  · cases fmt with
    | none => cases h
    | some fmt =>
        dsimp only at h
        split_ifs at h with haudio hbits hshort
        · cases h
        · cases h
        · cases h
        · have hw := Option.some.inj (Round.ret.inj h)
          have hdrop : 2 * (readU32Le (f.drop 4) / 2) ≤ (f.drop 8).length := by
            rw [List.length_drop]
            omega
          refine ⟨fmt, readU32Le (f.drop 4), readSamples (readU32Le (f.drop 4) / 2) (f.drop 8),
            (f.drop 8).drop (2 * (readU32Le (f.drop 4) / 2)), rfl, not_not.mp haudio, not_not.mp hbits,
            readU32Le_lt _, length_readSamples _ _, ?_, hw.symm⟩
          rw [dataBytes, flatMap_readSamples hdrop, List.take_append_drop, ← hdata]
          exact chunkHdr_append_drop (by omega)

/-! ## The walk -/

theorem walk_chunks (cs : List Chunk) (fuel : ℕ) (f : List UInt8) (fmt : Option Fmt) :
    walk (fuel + cs.length) (cs.flatMap (Chunk.bytes false) ++ f) fmt = walk fuel f (cs.foldl Chunk.fmtAfter fmt) := by
  induction cs generalizing fmt with
  | nil => rfl
  | cons c cs ih =>
      rw [List.flatMap_cons, List.append_assoc, List.length_cons, ← Nat.add_assoc, walk, round_chunk, List.foldl_cons]
      exact ih (c.fmtAfter fmt)

/-- A walk that succeeds has come over chunks without padding to a data chunk. -/
theorem chunks_of_walk {fuel : ℕ} {f : List UInt8} {fmt : Option Fmt} {w : Wav}
    (h : walk fuel f fmt = some (some w)) :
    ∃ (cs : List Chunk) (fmt' : Fmt) (dataSize : ℕ) (samples : List Int16) (behind : List UInt8),
      cs.foldl Chunk.fmtAfter fmt = some fmt' ∧ fmt'.audioFormat = 1 ∧ fmt'.bitsPerSample = 16 ∧
      dataSize < 2 ^ 32 ∧ samples.length = dataSize / 2 ∧
      f = cs.flatMap (Chunk.bytes false) ++ dataBytes dataSize samples behind ∧
      w = ⟨samples, castInt fmt'.sampRate, fmt'.channels⟩ := by
  induction fuel generalizing f fmt with
  | zero => cases h
  | succ fuel ih =>
      rw [walk] at h
      cases hround : round f fmt with
      | ret result =>
          rw [hround] at h
          cases h
          obtain ⟨fmt', dataSize, samples, behind, hfmt, hrest⟩ := data_of_ret hround
          exact ⟨[], fmt', dataSize, samples, behind, hfmt, hrest⟩
      | next f' fmt'' =>
          rw [hround] at h
          obtain ⟨cs, fmt', dataSize, samples, behind, hfmt, haudio, hbits, hsize, hsamples, hf, hw⟩ := ih h
          have hne : f' ≠ [] := by
            rintro rfl
            have hlen := congrArg List.length hf
            rw [List.length_append, dataBytes, List.length_append, length_chunkHdr rfl, List.length_nil] at hlen
            omega
          obtain ⟨c, hc, hafter⟩ := chunk_of_next hround hne
          refine ⟨c :: cs, fmt', dataSize, samples, behind, ?_, haudio, hbits, hsize, hsamples, ?_, hw⟩
          · rw [List.foldl_cons, ← hafter]
            exact hfmt
          · rw [hc, hf, List.flatMap_cons, List.append_assoc]

theorem le_length_chunks (padded : Bool) (cs : List Chunk) :
    8 * cs.length ≤ (cs.flatMap (Chunk.bytes padded)).length := by
  induction cs with
  | nil => exact Nat.zero_le _
  | cons c cs ih =>
      have hc : 8 ≤ (c.bytes padded).length := by
        unfold Chunk.bytes
        rw [List.length_append, List.length_append, length_chunkHdr c.length_id]
        omega
      rw [List.flatMap_cons, List.length_append, List.length_cons]
      omega

namespace Riff
variable (w : Riff)

/-- What the reader returns: the contents, the sample rate cast. -/
def returned : Wav := ⟨w.samples, castInt w.fmt.sampRate, w.fmt.channels⟩

theorem take_bytes (padded : Bool) : (w.bytes padded).take 4 = riffId := rfl

theorem waveId_bytes (padded : Bool) : slice (w.bytes padded) 8 4 = waveId := by
  have hlen : (riffId ++ w.riffSize).length = 8 := by
    rw [List.length_append, w.length_riffSize]
    rfl
  unfold slice bytes
  rw [List.append_assoc (riffId ++ w.riffSize), List.drop_left' hlen]
  rfl

theorem drop_bytes (padded : Bool) : (w.bytes padded).drop 12 =
    w.chunks.flatMap (Chunk.bytes padded) ++ dataBytes w.dataSize w.samples w.behind := by
  have hlen : (riffId ++ w.riffSize ++ waveId).length = 12 := by
    rw [List.length_append, List.length_append, w.length_riffSize]
    rfl
  exact List.drop_left' hlen

theorem lt_length_bytes (padded : Bool) : 8 * w.chunks.length + 12 ≤ (w.bytes padded).length := by
  have hchunks := le_length_chunks padded w.chunks
  unfold bytes
  simp only [List.length_append, w.length_riffSize]
  show _ ≤ 4 + 4 + 4 + _
  omega

end Riff

/-- **The reader reads the files without padding, and no others.** -/
theorem wavReadPcm16_iff {file : List UInt8} {r : Wav} :
    wavReadPcm16 file = some r ↔ ∃ v : Riff, v.bytes false = file ∧ v.returned = r := by
  constructor
  · intro h
    unfold wavReadPcm16 at h
    split_ifs at h with hlen hid
    obtain ⟨cs, fmt, dataSize, samples, behind, hfmt, haudio, hbits, hsize, hsamples, hf, hr⟩ :=
      chunks_of_walk (Option.join_eq_some_iff.mp h)
    rw [not_or, not_not, not_not] at hid
    refine ⟨⟨slice file 4 4, cs, fmt, dataSize, samples, behind, ?_, hfmt, haudio, hbits, hsize, hsamples⟩, ?_, hr.symm⟩
    · rw [slice, List.length_take, List.length_drop]
      omega
    · show riffId ++ slice file 4 4 ++ waveId ++ (_ ++ _) = file
      have htail : (file.drop 8).take 4 ++ file.drop 12 = file.drop 8 := by
        rw [show file.drop 12 = (file.drop 8).drop 4 by rw [List.drop_drop], List.take_append_drop]
      have hmid : (file.drop 4).take 4 ++ file.drop 8 = file.drop 4 := by
        rw [show file.drop 8 = (file.drop 4).drop 4 by rw [List.drop_drop], List.take_append_drop]
      rw [← hf, ← hid.1, ← hid.2, List.append_assoc, List.append_assoc, slice, slice, htail, hmid,
        List.take_append_drop]
  · rintro ⟨v, rfl, rfl⟩
    have hlen := v.lt_length_bytes false
    obtain ⟨k, hk⟩ : ∃ k, (v.bytes false).length / 8 + 1 = k + 1 + v.chunks.length :=
      ⟨(v.bytes false).length / 8 - v.chunks.length, by omega⟩
    unfold wavReadPcm16
    rw [if_neg (by omega), if_neg (by rw [v.take_bytes, v.waveId_bytes]; simp), hk, v.drop_bytes, walk_chunks,
      v.fmt_eq, walk, round_data v.audioFormat v.bitsPerSample v.dataSize_lt v.length_samples]
    rfl

/-! ## Files with padding -/

theorem castInt_eq_iff {m n : ℕ} (hm : m < 2 ^ 32) : castInt m = n ↔ m = n ∧ n < 2 ^ 31 := by
  unfold castInt
  rw [BitVec.toInt_eq_toNat_cond, BitVec.toNat_ofNat, Nat.mod_eq_of_lt hm]
  split_ifs <;> omega

theorem sampRate_lt {cs : List Chunk} {fmt : Fmt} (h : cs.foldl Chunk.fmtAfter none = some fmt) :
    fmt.sampRate < 2 ^ 32 := by
  induction cs using List.reverseRecOn with
  | nil => cases h
  | append_singleton cs c ih =>
      rw [List.foldl_append] at h
      change c.fmtAfter (cs.foldl Chunk.fmtAfter none) = some fmt at h
      unfold Chunk.fmtAfter at h
      split_ifs at h
      · cases h
        exact readU32Le_lt _
      · exact ih h

theorem Chunk.bytes_true_of_even {c : Chunk} (h : c.body.length % 2 = 0) : c.bytes true = c.bytes false := by
  unfold bytes
  rw [if_neg (by omega), if_neg fun h => Bool.false_ne_true h.1]

theorem flatMap_bytes_of_even {cs : List Chunk} (h : ∀ c ∈ cs, c.body.length % 2 = 0) :
    cs.flatMap (Chunk.bytes true) = cs.flatMap (Chunk.bytes false) :=
  List.flatMap_congr fun c hc => Chunk.bytes_true_of_even (h c hc)

/-- The samples are read with the rate and the channels if the file is, without padding, a file with these contents. -/
theorem padded_iff (w : Riff) : wavReadPcm16 (w.bytes true) = some w.contents ↔
    w.fmt.sampRate < 2 ^ 31 ∧ ∃ v : Riff, v.bytes false = w.bytes true ∧ v.contents = w.contents := by
  rw [wavReadPcm16_iff]
  constructor
  · rintro ⟨v, hbytes, hv⟩
    obtain ⟨hsamples, hrate, hchannels⟩ := Wav.mk.inj hv
    obtain ⟨hrate, hlt⟩ := (castInt_eq_iff (sampRate_lt v.fmt_eq)).mp hrate
    refine ⟨hlt, v, hbytes, ?_⟩
    unfold Riff.contents
    rw [hsamples, hrate, hchannels]
  · rintro ⟨hlt, v, hbytes, hv⟩
    obtain ⟨hsamples, hrate, hchannels⟩ := Wav.mk.inj hv
    refine ⟨v, hbytes, ?_⟩
    unfold Riff.returned Riff.contents
    rw [hsamples, hchannels, (castInt_eq_iff (sampRate_lt v.fmt_eq)).mpr ⟨Int.ofNat_inj.mp hrate, hlt⟩]

/-- Chunks of even sizes are no trouble. -/
theorem padded_of_even {w : Riff} (hrate : w.fmt.sampRate < 2 ^ 31) (h : ∀ c ∈ w.chunks, c.body.length % 2 = 0) :
    wavReadPcm16 (w.bytes true) = some w.contents := by
  refine (padded_iff w).mpr ⟨hrate, w, ?_, rfl⟩
  unfold Riff.bytes
  rw [flatMap_bytes_of_even h]

/-- The header of the data chunk, read one byte early: what is taken for a size is more than the data. -/
theorem round_early (pad : UInt8) {dataSize : ℕ} (hsize : dataSize < 2 ^ 24) (samples : List Int16)
    (behind : List UInt8) (fmt : Option Fmt) :
    round (pad :: dataBytes dataSize samples behind) fmt =
      .next ((pad :: dataBytes dataSize samples behind).drop (8 + (0x61 + 256 * dataSize))) fmt := by
  have hearly : leBytes 4 (0x61 + 256 * dataSize) = 0x61 :: leBytes 3 dataSize := by
    have hlow : UInt8.ofNat (0x61 + 256 * dataSize) = 0x61 := by
      apply UInt8.toNat_inj.mp
      rw [UInt8.toNat_ofNat']
      show _ = 0x61
      omega
    rw [leBytes, hlow, show (0x61 + 256 * dataSize) / 256 = dataSize by omega]
  have hf : pad :: dataBytes dataSize samples behind = chunkHdr [pad, 0x64, 0x61, 0x74] (0x61 + 256 * dataSize) ++
      (UInt8.ofNat (dataSize / 256 / 256 / 256) :: (samples.flatMap sampleBytes ++ behind)) := by
    unfold chunkHdr
    rw [hearly]
    rfl
  have hid : [pad, 0x64, 0x61, 0x74].length = 4 := rfl
  rw [hf]
  unfold round
  rw [take_chunkHdr hid, readU32Le_chunkHdr hid _ (by omega), if_neg, if_neg, if_neg]
  · exact fun h => absurd (List.cons.inj h).2 (by decide)
  · exact fun h => absurd (List.cons.inj h).2 (by decide)
  · rw [List.length_append, length_chunkHdr hid]
    omega

/-- The reader finds no samples where the only chunk of odd size stands right in front of the data chunk. -/
theorem padded_of_odd {w : Riff} {cs : List Chunk} {c : Chunk} (hchunks : w.chunks = cs ++ [c])
    (heven : ∀ c ∈ cs, c.body.length % 2 = 0) (hodd : c.body.length % 2 = 1) (hsize : w.dataSize < 2 ^ 24)
    (hbehind : w.behind.length ≤ 100) : wavReadPcm16 (w.bytes true) = none := by
  have hdata : (dataBytes w.dataSize w.samples w.behind).length = 8 + 2 * w.samples.length + w.behind.length := by
    rw [dataBytes, List.length_append, List.length_append, length_chunkHdr rfl, length_flatMap_sampleBytes,
      Nat.add_assoc]
  have hlen := w.lt_length_bytes true
  have hpad : c.bytes true = c.bytes false ++ [c.pad] := by
    unfold Chunk.bytes
    rw [if_pos ⟨rfl, hodd⟩, if_neg fun h => Bool.false_ne_true h.1, List.append_nil]
  have hdrop : (w.bytes true).drop 12 =
      (cs ++ [c]).flatMap (Chunk.bytes false) ++ (c.pad :: dataBytes w.dataSize w.samples w.behind) := by
    rw [w.drop_bytes, hchunks, List.flatMap_append, List.flatMap_append, flatMap_bytes_of_even heven]
    simp [hpad]
  have hround : ∀ fmt, round ((c.pad :: dataBytes w.dataSize w.samples w.behind).drop
      (8 + (0x61 + 256 * w.dataSize))) fmt = .ret none := by
    intro fmt
    have hsamples := w.length_samples
    unfold round
    rw [if_pos]
    rw [List.length_drop, List.length_cons, hdata]
    omega
  obtain ⟨k, hk⟩ : ∃ k, (w.bytes true).length / 8 + 1 = k + 1 + 1 + (cs ++ [c]).length := by
    rw [hchunks] at hlen
    exact ⟨(w.bytes true).length / 8 - (cs ++ [c]).length - 1, by omega⟩
  unfold wavReadPcm16
  rw [if_neg (by omega), if_neg (by rw [w.take_bytes, w.waveId_bytes]; simp), hk, hdrop, walk_chunks, walk,
    round_early c.pad hsize]
  show (walk (k + 1) _ _).join = none
  rw [walk, hround]
  rfl

/-- Whatever the file, the samples returned stand in it. -/
theorem samples_present {file : List UInt8} {r : Wav} (h : wavReadPcm16 file = some r) :
    ∃ off, off + 2 * r.samples.length ≤ file.length ∧
      slice file off (2 * r.samples.length) = r.samples.flatMap sampleBytes := by
  obtain ⟨v, rfl, rfl⟩ := wavReadPcm16_iff.mp h
  obtain ⟨before, hbytes⟩ : ∃ before, v.bytes false = before ++ (v.samples.flatMap sampleBytes ++ v.behind) := by
    refine ⟨riffId ++ v.riffSize ++ waveId ++ (v.chunks.flatMap (Chunk.bytes false) ++ chunkHdr dataId v.dataSize), ?_⟩
    unfold Riff.bytes dataBytes
    simp only [List.append_assoc]
  show ∃ off, off + 2 * v.samples.length ≤ _ ∧ slice _ off (2 * v.samples.length) = v.samples.flatMap sampleBytes
  refine ⟨before.length, ?_, ?_⟩
  · rw [hbytes, List.length_append, List.length_append, length_flatMap_sampleBytes]
    omega
  · rw [hbytes, slice, List.drop_left, List.take_left' (length_flatMap_sampleBytes v.samples)]

/-- **When a file is read.** The contents of a padded file come out exactly if the rate fits an `int` and the file has
the same contents when no chunk is taken to be padded. It has when all chunks in front of the data are of even size, and
it has not when the only odd one is right in front of the data. On any file the walk ends, and the samples returned
stand in the file. -/
theorem wavReadPcm16_exact (w : Riff) (file : List UInt8) :
    (wavReadPcm16 (w.bytes true) = some w.contents ↔
      w.fmt.sampRate < 2 ^ 31 ∧ ∃ v : Riff, v.bytes false = w.bytes true ∧ v.contents = w.contents) ∧
    (w.fmt.sampRate < 2 ^ 31 → (∀ c ∈ w.chunks, c.body.length % 2 = 0) →
      wavReadPcm16 (w.bytes true) = some w.contents) ∧
    (∀ cs c, w.chunks = cs ++ [c] → (∀ c ∈ cs, c.body.length % 2 = 0) → c.body.length % 2 = 1 →
      w.dataSize < 2 ^ 24 → w.behind.length ≤ 100 → wavReadPcm16 (w.bytes true) = none) ∧
    (walk (file.length / 8 + 1) (file.drop 12) none).isSome = true ∧
    ∀ r, wavReadPcm16 file = some r → ∃ off, off + 2 * r.samples.length ≤ file.length ∧
      slice file off (2 * r.samples.length) = r.samples.flatMap sampleBytes := by
  refine ⟨padded_iff w, padded_of_even, fun _ _ => padded_of_odd, ?_, fun _ => samples_present⟩
  apply walk_isSome
  rw [List.length_drop]
  omega

/-- The format 16-bit PCM, mono, 48 kHz. -/
def fmtMono : Chunk where
  id := fmtId
  body := [1, 0, 1, 0, 0x80, 0xbb, 0, 0, 0, 0x77, 1, 0, 2, 0, 16, 0]
  pad := 0
  length_id := rfl
  length_body := by decide
  not_data := by decide
  le_length_fmt := by decide

/-- Three bytes of metadata. -/
def listChunk : Chunk where
  id := text "LIST"
  body := text "abc"
  pad := 0
  length_id := rfl
  length_body := by decide
  not_data := by decide
  le_length_fmt := by decide

/-- A file with two samples and a chunk of odd size. -/
def oddFile : Riff where
  riffSize := [52, 0, 0, 0]
  chunks := [fmtMono, listChunk]
  fmt := ⟨1, 1, 48000, 16⟩
  dataSize := 4
  samples := [1, 2]
  behind := []
  length_riffSize := rfl
  fmt_eq := rfl
  audioFormat := rfl
  bitsPerSample := rfl
  dataSize_lt := by decide
  length_samples := rfl

/-- A well-formed file that is not read. -/
theorem wavReadPcm16_odd :
    (oddFile.bytes true).length = 60 ∧ wavReadPcm16 (oddFile.bytes true) ≠ some oddFile.contents := by
  decide

end SimpleSatOps.WavRead
