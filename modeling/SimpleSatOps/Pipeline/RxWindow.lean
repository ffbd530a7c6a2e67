import SimpleSatOps.Basic

/-!
# The sliding decode windows (`worker_pump_once`)

The worker appends every pumped sample to a PCM and an IQ window, decodes full windows and slides them.

* `Geometry` : the two window parameters, with the bounds of the session;
* `Inv` : what the buffers and counters hold after a number of samples;
* `Inv.sample`, `Inv.loop`, `Inv.run` : one sample, one chunk, any chunking;
* `windows_of_run` : the decoded windows of a run, and the spans they cover.
-/

namespace SimpleSatOps.RxSession

/-- `window_samples` and `slide_samples`. -/
structure Geometry where
  windowSamples : ℕ
  slideSamples : ℕ
  one_le_slide : 1 ≤ slideSamples
  slide_le_window : slideSamples ≤ windowSamples

/-- One result of `b210_rx_tx_core_pump`: the return value, the two chunk buffers and the number of IQ pairs. -/
structure Chunk where
  n : ℤ
  pcmChunk : List Int16
  iqDecodeChunk : List Int16
  iqDecodePairs : ℕ

/-- The window part of `rx_session_t`; `iqWindow` interleaves I and Q. -/
structure Windows where
  window : List Int16
  windowFilled : ℕ
  iqWindow : List Int16
  iqWindowFilled : ℕ
  totalWindowSamples : UInt64

/-- What the decoders of one full window see; `iqWindow` is absent when they run on PCM alone. -/
structure Decoded where
  window : List Int16
  iqWindow : Option (List Int16)
  totalWindowSamples : UInt64

/-! ## The pump -/

section Pump
variable (g : Geometry)

def Windows.pushPcm (w : Windows) (v : Int16) : Option Windows := do
  let window ← store w.window w.windowFilled v
  some { w with window := window, windowFilled := w.windowFilled + 1 }

/-- The pair `i` of the chunk goes to the IQ window, when there is one and the window has room. -/
def Windows.pushIq (c : Chunk) (i : ℕ) (w : Windows) : Option Windows :=
  if i < min c.iqDecodePairs c.n.toNat ∧ w.iqWindowFilled < g.windowSamples then do
    let vi ← c.iqDecodeChunk[2 * i]?
    let vq ← c.iqDecodeChunk[2 * i + 1]?
    let iq ← store w.iqWindow (2 * w.iqWindowFilled) vi
    let iq ← store iq (2 * w.iqWindowFilled + 1) vq
    some { w with iqWindow := iq, iqWindowFilled := w.iqWindowFilled + 1 }
  else some w

/-- `try_decode_at_window`, and the IQ decoders when the IQ window is full. -/
def Windows.decoded (w : Windows) : Decoded where
  window := w.window
  iqWindow := if g.windowSamples ≤ w.iqWindowFilled then some w.iqWindow else none
  totalWindowSamples := w.totalWindowSamples

/-- The `memmove` of the PCM window. -/
def Windows.slidePcm (w : Windows) : Option Windows := do
  let window ← moveDown w.window g.slideSamples (g.windowSamples - g.slideSamples)
  some { w with window := window, windowFilled := g.windowSamples - g.slideSamples }

/-- The `memmove` of the IQ window, when it is full. -/
def Windows.slideIq (w : Windows) : Option Windows :=
  if g.windowSamples ≤ w.iqWindowFilled then do
    let iq ← moveDown w.iqWindow (2 * g.slideSamples) (2 * (g.windowSamples - g.slideSamples))
    some { w with iqWindow := iq, iqWindowFilled := g.windowSamples - g.slideSamples }
  else some w

/-- The rest of an iteration, after the stores. -/
def Windows.decodeFull (w : Windows) : Option (Windows × List Decoded) :=
  if w.windowFilled < g.windowSamples then some (w, [])
  else (w.slidePcm g >>= Windows.slideIq g).map fun w' => (w', [w.decoded g])

/-- One iteration of the loop of `worker_pump_once`. -/
def pumpSample (c : Chunk) (i : ℕ) (w : Windows) : Option (Windows × List Decoded) := do
  let v ← c.pcmChunk[i]?
  let w ← w.pushPcm v
  let w ← w.pushIq g c i
  Windows.decodeFull g { w with totalWindowSamples := w.totalWindowSamples + 1 }

/-- `k` iterations from sample `i` on. -/
def pumpLoop (c : Chunk) : ℕ → ℕ → Windows → Option (Windows × List Decoded)
  | 0, _, w => some (w, [])
  | k + 1, i, w => do
    let (w, ds) ← pumpSample g c i w
    let (w, ds') ← pumpLoop c k (i + 1) w
    some (w, ds ++ ds')

/-- `worker_pump_once`: the return value, the windows and what was decoded. -/
def workerPumpOnce (c : Chunk) (w : Windows) : Option (ℤ × Windows × List Decoded) :=
  if c.n < 0 then some (-1, w, [])
  else if c.n = 0 then some (0, w, [])
  else (pumpLoop g c c.n.toNat 0 w).map fun r => (c.n, r)

/-- The worker thread: one pump after the other. -/
def pumpAll : List Chunk → Windows → Option (Windows × List Decoded)
  | [], w => some (w, [])
  | c :: cs, w => do
    let (_, w, ds) ← workerPumpOnce g c w
    let (w, ds') ← pumpAll cs w
    some (w, ds ++ ds')

end Pump

/-- The windows of `rx_session_open`, over the memory `malloc` returned. -/
def Windows.fresh (mem iqMem : List Int16) : Windows where
  window := mem
  windowFilled := 0
  iqWindow := iqMem
  iqWindowFilled := 0
  totalWindowSamples := 0

/-! ## The stream -/

/-- The core delivers as many IQ pairs as PCM samples, inside the chunk buffers. -/
structure Chunk.Delivered (c : Chunk) : Prop where
  pairs : c.iqDecodePairs = c.n.toNat
  pcm_le : c.n.toNat ≤ c.pcmChunk.length
  iq_le : 2 * c.n.toNat ≤ c.iqDecodeChunk.length

def Chunk.pcm (c : Chunk) : List Int16 := c.pcmChunk.take c.n.toNat

def Chunk.iq (c : Chunk) : List Int16 := c.iqDecodeChunk.take (2 * c.n.toNat)

def pcmStream (cs : List Chunk) : List Int16 := cs.flatMap Chunk.pcm

def iqStream (cs : List Chunk) : List Int16 := cs.flatMap Chunk.iq

/-- Window `k` of a stream. -/
structure Decoded.IsWindow (g : Geometry) (pcm iq : List Int16) (k : ℕ) (d : Decoded) : Prop where
  window_eq : d.window = slice pcm (k * g.slideSamples) g.windowSamples
  iqWindow_eq : d.iqWindow = some (slice iq (2 * (k * g.slideSamples)) (2 * g.windowSamples))
  start_eq : d.totalWindowSamples - UInt64.ofNat g.windowSamples = UInt64.ofNat (k * g.slideSamples)
  le_length : k * g.slideSamples + g.windowSamples ≤ pcm.length

/-- The buffers and counters after the samples `pcm` and `iq`, when `ds` was decoded. -/
structure Synced (g : Geometry) (pcm iq : List Int16) (w : Windows) (ds : List Decoded) : Prop where
  length_window : w.window.length = g.windowSamples
  length_iqWindow : w.iqWindow.length = 2 * g.windowSamples
  length_iq : iq.length = 2 * pcm.length
  iqFilled : w.iqWindowFilled = w.windowFilled
  position : ds.length * g.slideSamples + w.windowFilled = pcm.length
  kept_le : ds ≠ [] → g.windowSamples - g.slideSamples ≤ w.windowFilled
  take_window : w.window.take w.windowFilled = pcm.drop (ds.length * g.slideSamples)
  take_iqWindow : w.iqWindow.take (2 * w.windowFilled) = iq.drop (2 * (ds.length * g.slideSamples))
  total : w.totalWindowSamples = UInt64.ofNat pcm.length
  windows : ∀ (k : ℕ) (d : Decoded), ds[k]? = some d → d.IsWindow g pcm iq k

/-- Between two samples no window is full. -/
structure Inv (g : Geometry) (pcm iq : List Int16) (w : Windows) (ds : List Decoded) : Prop
    extends Synced g pcm iq w ds where
  filled_lt : w.windowFilled < g.windowSamples

section Invariant
variable {g : Geometry} {pcm iq : List Int16} {w : Windows} {ds : List Decoded}

theorem Decoded.IsWindow.append {k : ℕ} {d : Decoded} (h : d.IsWindow g pcm iq k) (hiq : iq.length = 2 * pcm.length)
    (ps qs : List Int16) : d.IsWindow g (pcm ++ ps) (iq ++ qs) k where
  window_eq := by rw [slice_append_of_le h.le_length, h.window_eq]
  iqWindow_eq := by
    have hle := h.le_length
    rw [slice_append_of_le (by omega), h.iqWindow_eq]
  start_eq := h.start_eq
  le_length := by
    have hle := h.le_length
    rw [List.length_append]
    omega

theorem Inv.fresh (mem iqMem : List Int16) (hmem : mem.length = g.windowSamples)
    (hiq : iqMem.length = 2 * g.windowSamples) : Inv g [] [] (Windows.fresh mem iqMem) [] where
  length_window := hmem
  length_iqWindow := hiq
  length_iq := rfl
  iqFilled := rfl
  position := by simp [Windows.fresh]
  kept_le h := absurd rfl h
  take_window := by simp [Windows.fresh]
  take_iqWindow := by simp [Windows.fresh]
  total := rfl
  windows k d h := by simp at h
  filled_lt := Nat.lt_of_lt_of_le g.one_le_slide g.slide_le_window

/-- The stores of one sample. -/
def Windows.pushed (w : Windows) (v a b : Int16) : Windows where
  window := w.window.set w.windowFilled v
  windowFilled := w.windowFilled + 1
  iqWindow := (w.iqWindow.set (2 * w.iqWindowFilled) a).set (2 * w.iqWindowFilled + 1) b
  iqWindowFilled := w.iqWindowFilled + 1
  totalWindowSamples := w.totalWindowSamples + 1

theorem Inv.pushed (h : Inv g pcm iq w ds) (v a b : Int16) :
    Synced g (pcm ++ [v]) (iq ++ [a, b]) (w.pushed v a b) ds where
  length_window := by
    rw [← h.length_window]
    exact List.length_set
  length_iqWindow := by
    rw [← h.length_iqWindow]
    exact List.length_set.trans List.length_set
  length_iq := by
    rw [List.length_append, List.length_append, h.length_iq]
    rfl
  iqFilled := congrArg (· + 1) h.iqFilled
  position := by
    have hpos := h.position
    rw [List.length_append, List.length_singleton, ← hpos]
    rfl
  kept_le hne := (h.kept_le hne).trans (Nat.le_succ _)
  take_window := by
    have hpos := h.position
    rw [List.drop_append_of_le_length (by omega), ← h.take_window]
    exact take_succ_set (h.length_window ▸ h.filled_lt) v
  take_iqWindow := by
    have hpos := h.position
    have hlen := h.length_iq
    have hfill := h.filled_lt
    have hiq := h.length_iqWindow
    rw [List.drop_append_of_le_length (by omega), ← h.take_iqWindow]
    change List.take (2 * w.windowFilled + 1 + 1)
      ((w.iqWindow.set (2 * w.iqWindowFilled) a).set (2 * w.iqWindowFilled + 1) b) = _
    rw [h.iqFilled, take_succ_set (by rw [List.length_set]; omega), take_succ_set (by omega), List.append_assoc]
    rfl
  total := by
    rw [List.length_append, List.length_singleton, UInt64.ofNat_add, ← h.total]
    rfl
  windows k d hk := (h.windows k d hk).append h.length_iq [v] [a, b]

/-- A full window is the next window of the stream. -/
theorem Synced.decoded (h : Synced g pcm iq w ds) (hfull : w.windowFilled = g.windowSamples) :
    (w.decoded g).IsWindow g pcm iq ds.length where
  window_eq := by
    have htake := h.take_window
    rw [hfull, ← h.length_window, List.take_length] at htake
    have hpos := h.position
    unfold slice
    rw [← htake, ← h.length_window, List.take_length]
    rfl
  iqWindow_eq := by
    have htake := h.take_iqWindow
    rw [hfull, ← h.length_iqWindow, List.take_length] at htake
    unfold slice Windows.decoded
    rw [← htake, ← h.length_iqWindow, List.take_length, if_pos (hfull ▸ h.iqFilled.ge)]
  start_eq := by
    have hpos := h.position
    change w.totalWindowSamples - _ = _
    rw [h.total, ← hpos, hfull, UInt64.ofNat_add, UInt64.add_sub_cancel]
  le_length := by
    have hpos := h.position
    omega

/-- The windows after the two `memmove`s. -/
def Windows.slid (g : Geometry) (w : Windows) : Windows where
  window := overlay (slice w.window g.slideSamples (g.windowSamples - g.slideSamples)) w.window
  windowFilled := g.windowSamples - g.slideSamples
  iqWindow := overlay (slice w.iqWindow (2 * g.slideSamples) (2 * (g.windowSamples - g.slideSamples))) w.iqWindow
  iqWindowFilled := g.windowSamples - g.slideSamples
  totalWindowSamples := w.totalWindowSamples

theorem Synced.slide_eq (h : Synced g pcm iq w ds) (hfull : w.windowFilled = g.windowSamples) :
    (w.slidePcm g >>= Windows.slideIq g) = some (w.slid g) := by
  have hle := g.slide_le_window
  have hw := h.length_window
  have hiq := h.length_iqWindow
  unfold Windows.slidePcm
  rw [moveDown_of_le (by omega)]
  change Windows.slideIq g _ = _
  unfold Windows.slideIq
  rw [if_pos (hfull ▸ h.iqFilled.ge), moveDown_of_le (by change _ ≤ w.iqWindow.length; omega)]
  rfl

/-- Keeping the end of a full window. -/
theorem take_moved {α : Type*} {buf : List α} {n k : ℕ} (hlen : buf.length = n) (hk : k ≤ n) :
    (overlay (slice buf k (n - k)) buf).take (n - k) = buf.drop k := by
  have hslice : (slice buf k (n - k)).length = n - k := length_slice (by omega)
  have htake := take_overlay (slice buf k (n - k)) buf
  rw [hslice] at htake
  rw [htake]
  unfold slice
  exact List.take_of_length_le (by rw [List.length_drop]; omega)

theorem Synced.slid (h : Synced g pcm iq w ds) (hfull : w.windowFilled = g.windowSamples) :
    Inv g pcm iq (w.slid g) (ds ++ [w.decoded g]) where
  length_window := by
    have hle := g.slide_le_window
    have hw := h.length_window
    refine (length_overlay ?_).trans hw
    rw [length_slice (by omega)]
    omega
  length_iqWindow := by
    have hle := g.slide_le_window
    have hiq := h.length_iqWindow
    refine (length_overlay ?_).trans hiq
    rw [length_slice (by omega)]
    omega
  length_iq := h.length_iq
  iqFilled := rfl
  position := by
    have hle := g.slide_le_window
    have hpos := h.position
    rw [List.length_append, List.length_singleton, Nat.add_mul]
    change _ + _ + (g.windowSamples - g.slideSamples) = _
    omega
  kept_le _ := le_rfl
  take_window := by
    have htake := h.take_window
    rw [hfull, ← h.length_window, List.take_length] at htake
    rw [List.length_append, List.length_singleton, Nat.add_mul, Nat.one_mul, ← List.drop_drop, ← htake]
    exact take_moved h.length_window g.slide_le_window
  take_iqWindow := by
    have htake := h.take_iqWindow
    rw [hfull, ← h.length_iqWindow, List.take_length] at htake
    rw [List.length_append, List.length_singleton, Nat.add_mul, Nat.one_mul, Nat.mul_add, ← List.drop_drop, ← htake]
    have hmoved := take_moved h.length_iqWindow (Nat.mul_le_mul_left 2 g.slide_le_window)
    rw [← Nat.mul_sub] at hmoved
    exact hmoved
  total := h.total
  windows k d hk := by
    rcases Nat.lt_trichotomy k ds.length with hlt | rfl | hgt
    · rw [List.getElem?_append_left hlt] at hk
      exact h.windows k d hk
    · rw [List.getElem?_append_right le_rfl, Nat.sub_self] at hk
      cases hk
      exact h.decoded hfull
    · rw [List.getElem?_eq_none (by rw [List.length_append, List.length_singleton]; omega)] at hk
      cases hk
  filled_lt := by
    have h1 := g.one_le_slide
    have hle := g.slide_le_window
    change g.windowSamples - g.slideSamples < g.windowSamples
    omega

/-! ## One sample, one chunk, a run -/

theorem pushPcm_of_lt {w : Windows} (h : w.windowFilled < w.window.length) (v : Int16) :
    w.pushPcm v = some { w with window := w.window.set w.windowFilled v, windowFilled := w.windowFilled + 1 } := by
  unfold Windows.pushPcm
  rw [store_of_lt h]
  rfl

theorem pushIq_of_lt {w : Windows} {c : Chunk} {i : ℕ} (hi : i < min c.iqDecodePairs c.n.toNat)
    (hroom : w.iqWindowFilled < g.windowSamples) (hlen : w.iqWindow.length = 2 * g.windowSamples) {a b : Int16}
    (ha : c.iqDecodeChunk[2 * i]? = some a) (hb : c.iqDecodeChunk[2 * i + 1]? = some b) :
    w.pushIq g c i = some { w with
      iqWindow := (w.iqWindow.set (2 * w.iqWindowFilled) a).set (2 * w.iqWindowFilled + 1) b,
      iqWindowFilled := w.iqWindowFilled + 1 } := by
  unfold Windows.pushIq
  rw [if_pos ⟨hi, hroom⟩, ha, hb]
  simp only [Option.bind_eq_bind, Option.bind_some]
  rw [store_of_lt (by omega), Option.bind_some, store_of_lt (by rw [List.length_set]; omega)]
  rfl

theorem Inv.pumpSample_eq (h : Inv g pcm iq w ds) {c : Chunk} (hc : c.Delivered) {i : ℕ} (hi : i < c.n.toNat)
    {v a b : Int16} (hv : c.pcmChunk[i]? = some v) (ha : c.iqDecodeChunk[2 * i]? = some a)
    (hb : c.iqDecodeChunk[2 * i + 1]? = some b) : pumpSample g c i w = (w.pushed v a b).decodeFull g := by
  have hpairs : i < min c.iqDecodePairs c.n.toNat := by
    rw [hc.pairs, Nat.min_self]
    exact hi
  have hroom : w.iqWindowFilled < g.windowSamples := h.iqFilled ▸ h.filled_lt
  have hpcm := pushPcm_of_lt (h.length_window ▸ h.filled_lt) v
  have hiq := pushIq_of_lt (w := { w with window := w.window.set w.windowFilled v, windowFilled := w.windowFilled + 1 })
    hpairs hroom h.length_iqWindow ha hb
  unfold pumpSample
  simp only [hv, hpcm, hiq, Option.bind_eq_bind, Option.bind_some]
  rfl

/-- **One sample**: no store leaves its buffer, and the invariant holds for the longer stream. -/
theorem Inv.sample (h : Inv g pcm iq w ds) {c : Chunk} (hc : c.Delivered) {i : ℕ} (hi : i < c.n.toNat) {v a b : Int16}
    (hv : c.pcmChunk[i]? = some v) (ha : c.iqDecodeChunk[2 * i]? = some a) (hb : c.iqDecodeChunk[2 * i + 1]? = some b) :
    ∃ w' ds', pumpSample g c i w = some (w', ds') ∧ Inv g (pcm ++ [v]) (iq ++ [a, b]) w' (ds ++ ds') := by
  rw [h.pumpSample_eq hc hi hv ha hb]
  have hpushed := h.pushed v a b
  have hfill : (w.pushed v a b).windowFilled ≤ g.windowSamples := h.filled_lt
  unfold Windows.decodeFull
  rcases Nat.lt_or_eq_of_le hfill with hlt | hfull
  · refine ⟨_, [], if_pos hlt, ?_⟩
    rw [List.append_nil]
    exact ⟨hpushed, hlt⟩
  · refine ⟨(w.pushed v a b).slid g, [(w.pushed v a b).decoded g], ?_, hpushed.slid hfull⟩
    rw [if_neg (Nat.not_lt.mpr hfull.ge), hpushed.slide_eq hfull]
    rfl

/-- The loop has the first `i` samples of the chunk behind it. -/
theorem Inv.loop {c : Chunk} (hc : c.Delivered) (k : ℕ) : ∀ (i : ℕ) (pcm iq : List Int16) (w : Windows)
    (ds : List Decoded), i + k = c.n.toNat →
    Inv g (pcm ++ c.pcmChunk.take i) (iq ++ c.iqDecodeChunk.take (2 * i)) w ds →
    ∃ w' ds', pumpLoop g c k i w = some (w', ds') ∧ Inv g (pcm ++ c.pcm) (iq ++ c.iq) w' (ds ++ ds') := by
  induction k with
  | zero =>
    intro i pcm iq w ds hi h
    refine ⟨w, [], rfl, ?_⟩
    rw [List.append_nil]
    unfold Chunk.pcm Chunk.iq
    rw [← hi]
    exact h
  | succ k ih =>
    intro i pcm iq w ds hi h
    have hpcm := hc.pcm_le
    have hiq := hc.iq_le
    have hv := List.getElem?_eq_getElem (l := c.pcmChunk) (i := i) (by omega)
    have ha := List.getElem?_eq_getElem (l := c.iqDecodeChunk) (i := 2 * i) (by omega)
    have hb := List.getElem?_eq_getElem (l := c.iqDecodeChunk) (i := 2 * i + 1) (by omega)
    obtain ⟨w1, ds1, h1, hinv1⟩ := h.sample hc (by omega) hv ha hb
    have hnext : Inv g (pcm ++ c.pcmChunk.take (i + 1)) (iq ++ c.iqDecodeChunk.take (2 * (i + 1))) w1 (ds ++ ds1) := by
      rw [Nat.mul_add, List.take_add_one, List.take_add_one, List.take_add_one, hv, ha, hb]
      simpa only [Option.toList_some, List.append_assoc, List.singleton_append] using hinv1
    obtain ⟨w2, ds2, h2, hinv2⟩ := ih (i + 1) pcm iq w1 (ds ++ ds1) (by omega) hnext
    refine ⟨w2, ds1 ++ ds2, ?_, by rwa [← List.append_assoc]⟩
    unfold pumpLoop
    simp only [h1, h2, Option.bind_eq_bind, Option.bind_some]

/-- **One chunk**, of any size. -/
theorem Inv.pump (h : Inv g pcm iq w ds) {c : Chunk} (hc : c.Delivered) :
    ∃ ret w' ds', workerPumpOnce g c w = some (ret, w', ds') ∧ Inv g (pcm ++ c.pcm) (iq ++ c.iq) w' (ds ++ ds') := by
  unfold workerPumpOnce
  rcases lt_trichotomy c.n 0 with hneg | hzero | hpos
  · refine ⟨-1, w, [], if_pos hneg, ?_⟩
    have hn : c.n.toNat = 0 := by omega
    simpa [Chunk.pcm, Chunk.iq, hn] using h
  · refine ⟨0, w, [], ?_, ?_⟩
    · rw [if_neg (by omega), if_pos hzero]
    · simpa [Chunk.pcm, Chunk.iq, hzero] using h
  · obtain ⟨w', ds', hloop, hinv⟩ := Inv.loop hc c.n.toNat 0 pcm iq w ds (by omega) (by simpa using h)
    refine ⟨c.n, w', ds', ?_, hinv⟩
    rw [if_neg (by omega), if_neg (by omega), hloop]
    rfl

/-- **A run**, over any chunking. -/
theorem Inv.run (cs : List Chunk) (hdel : ∀ c ∈ cs, c.Delivered) : ∀ {pcm iq : List Int16} {w : Windows}
    {ds : List Decoded}, Inv g pcm iq w ds →
    ∃ w' ds', pumpAll g cs w = some (w', ds') ∧ Inv g (pcm ++ pcmStream cs) (iq ++ iqStream cs) w' (ds ++ ds') := by
  induction cs with
  | nil =>
    intro pcm iq w ds h
    refine ⟨w, [], rfl, ?_⟩
    simpa [pcmStream, iqStream] using h
  | cons c cs ih =>
    intro pcm iq w ds h
    obtain ⟨ret, w1, ds1, h1, hinv1⟩ := h.pump (hdel c List.mem_cons_self)
    obtain ⟨w2, ds2, h2, hinv2⟩ := ih (fun c' hc' => hdel c' (List.mem_cons_of_mem _ hc')) hinv1
    refine ⟨w2, ds1 ++ ds2, ?_, ?_⟩
    · unfold pumpAll
      simp only [h1, h2, Option.bind_eq_bind, Option.bind_some]
    · simpa [pcmStream, iqStream] using hinv2

/-- As many windows were decoded as the stream holds. -/
theorem Inv.lt_length_iff (h : Inv g pcm iq w ds) (k : ℕ) :
    k < ds.length ↔ k * g.slideSamples + g.windowSamples ≤ pcm.length := by
  have hpos := h.position
  have hfill := h.filled_lt
  have hle := g.slide_le_window
  constructor
  · intro hk
    have hkept := h.kept_le (List.ne_nil_of_length_pos (by omega))
    have hmul : (k + 1) * g.slideSamples ≤ ds.length * g.slideSamples := Nat.mul_le_mul_right _ hk
    rw [Nat.add_mul, Nat.one_mul] at hmul
    omega
  · intro hk
    by_contra hge
    have hmul : ds.length * g.slideSamples ≤ k * g.slideSamples := Nat.mul_le_mul_right _ (Nat.not_lt.mp hge)
    omega

end Invariant

/-- A span that overlaps two windows at most lies in the last one that starts at or before it. -/
theorem span_in_window (g : Geometry) {a len : ℕ} (hlen : len ≤ g.windowSamples - g.slideSamples + 1) :
    a / g.slideSamples * g.slideSamples ≤ a ∧
      a + len ≤ a / g.slideSamples * g.slideSamples + g.windowSamples := by
  have h1 := g.one_le_slide
  have hle := g.slide_le_window
  have hmod := Nat.mod_lt a h1
  have hdiv := Nat.div_add_mod' a g.slideSamples
  omega

/-- **Window coverage**: over any chunking no index leaves the buffers, the decoded windows are the slides of the
stream under their absolute labels, and every span of at most `window - slide + 1` samples lies in one of them, once
the last window that starts at or before it is complete. -/
theorem windows_of_run (g : Geometry) (mem : {l : List Int16 // l.length = g.windowSamples})
    (iqMem : {l : List Int16 // l.length = 2 * g.windowSamples}) (cs : List Chunk) (hdel : ∀ c ∈ cs, c.Delivered) :
    ∃ w ds, pumpAll g cs (Windows.fresh mem.1 iqMem.1) = some (w, ds) ∧
      (∀ k, k < ds.length ↔ k * g.slideSamples + g.windowSamples ≤ (pcmStream cs).length) ∧
      (∀ k d, ds[k]? = some d → Decoded.IsWindow g (pcmStream cs) (iqStream cs) k d) ∧
      ∀ a len, len ≤ g.windowSamples - g.slideSamples + 1 →
        a / g.slideSamples * g.slideSamples + g.windowSamples ≤ (pcmStream cs).length →
        ∃ k < ds.length, k * g.slideSamples ≤ a ∧ a + len ≤ k * g.slideSamples + g.windowSamples := by
  obtain ⟨w, ds, hrun, hinv⟩ := Inv.run cs hdel (Inv.fresh mem.1 iqMem.1 mem.2 iqMem.2)
  rw [List.nil_append, List.nil_append, List.nil_append] at hinv
  refine ⟨w, ds, hrun, hinv.lt_length_iff, hinv.windows, fun a len hlen hlong => ?_⟩
  exact ⟨a / g.slideSamples, (hinv.lt_length_iff _).mpr hlong, span_in_window g hlen⟩

/-- Windows of three samples that slide by two. -/
def smallGeometry : Geometry := ⟨3, 2, by decide, by decide⟩

/-- Chunks of six and of two samples: the first spans two windows, the second completes a third. -/
def smallChunks : List Chunk :=
  [⟨6, [1, 2, 3, 4, 5, 6], [10, 11, 20, 21, 30, 31, 40, 41, 50, 51, 60, 61], 6⟩,
    ⟨2, [7, 8, 0], [70, 71, 80, 81], 2⟩]

theorem windows_of_smallChunks :
    ∃ w ds, pumpAll smallGeometry smallChunks (Windows.fresh [0, 0, 0] [0, 0, 0, 0, 0, 0]) = some (w, ds) ∧
      ds.length = 3 ∧ ∃ k < ds.length, k * 2 ≤ 3 ∧ 3 + 2 ≤ k * 2 + 3 := by
  obtain ⟨w, ds, hrun, hlen, -, hcover⟩ := windows_of_run smallGeometry ⟨[0, 0, 0], rfl⟩ ⟨[0, 0, 0, 0, 0, 0], rfl⟩
    smallChunks (by
      intro c hc
      rcases List.mem_cons.mp hc with rfl | hc
      · exact ⟨rfl, by decide, by decide⟩
      · obtain rfl := List.mem_singleton.mp hc
        exact ⟨rfl, by decide, by decide⟩)
  refine ⟨w, ds, hrun, ?_, hcover 3 2 (by decide) (by decide)⟩
  have hlo := (hlen 2).mpr (by decide)
  have hhi := mt (hlen 3).mp (by decide)
  omega

end SimpleSatOps.RxSession
