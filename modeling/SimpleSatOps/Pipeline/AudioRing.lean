import Mathlib.Data.List.GetD
import Mathlib.Tactic
import SimpleSatOps.Basic
import SimpleSatOps.Lib.Fold
import SimpleSatOps.Lib.Ring

/-!
# The live-audio ring (`audio_ring_push`, `rx_session_set_audio_tap`, `rx_session_read_audio`)

* `Audio` : the ring in `rx_session_t`; `none` is an access outside it;
* `Since` : the samples pushed and read since the tap was last switched on, and `audio_dropped` at that time;
* `Op`, `step` : the calls, in any order;
* `Inv`, `Inv.step` : what holds between two calls, and that every call keeps it;
* `audioRing_spec` : what every run reads, keeps and drops.
-/

namespace SimpleSatOps.AudioRing

/-- The audio part of `rx_session_t`; `rx_session_open` fails unless the ring was allocated. -/
structure Audio where
  audioRing : List Int16
  audioRingCap : ℕ
  audioRingHead : ℕ
  audioRingCount : ℕ
  audioTapOn : Bool
  audioDropped : UInt64

/-! ## The source -/

/-- `audio_ring[head] = v; head = (head + 1) % cap`. -/
def Audio.write (a : Audio) (v : Int16) : Option Audio := do
  let ring ← store a.audioRing a.audioRingHead v
  some { a with audioRing := ring, audioRingHead := (a.audioRingHead + 1) % a.audioRingCap }

/-- `audio_ring_push`. -/
def Audio.push (a : Audio) (pcm : List Int16) : Option Audio :=
  if a.audioTapOn = true ∧ 0 < a.audioRingCap ∧ 0 < pcm.length then do
    let cap := a.audioRingCap
    let excess := pcm.length - cap
    let a := if cap < pcm.length then { a with audioDropped := a.audioDropped + UInt64.ofNat excess } else a
    let pcm := if cap < pcm.length then pcm.drop excess else pcm
    let a ← pcm.foldlM Audio.write a
    if cap < a.audioRingCount + pcm.length then
      some { a with
        audioDropped := a.audioDropped + UInt64.ofNat (a.audioRingCount + pcm.length - cap)
        audioRingCount := cap }
    else some { a with audioRingCount := a.audioRingCount + pcm.length }
  else some a

/-- `rx_session_set_audio_tap`. -/
def Audio.setAudioTap (a : Audio) (on : Bool) : Audio :=
  let a := if on && !a.audioTapOn then { a with audioRingHead := 0, audioRingCount := 0 } else a
  { a with audioTapOn := on }

/-- `for (…; i < take; ++i) out[i] = audio_ring[(tail + i) % cap]`, with `n` samples left to copy. -/
def Audio.copyOut (a : Audio) (tail i : ℕ) : ℕ → Option (List Int16)
  | 0 => some []
  | n + 1 => do
    let v ← a.audioRing[(tail + i) % a.audioRingCap]?
    let out ← a.copyOut tail (i + 1) n
    some (v :: out)

/-- The `n` oldest unread samples. -/
def Audio.oldest (a : Audio) (n : ℕ) : Option (List Int16) :=
  a.copyOut ((a.audioRingHead + a.audioRingCap - a.audioRingCount) % a.audioRingCap) 0 n

/-- `rx_session_read_audio` with a destination of `maxSamples` samples. -/
def Audio.read (a : Audio) (maxSamples : ℕ) : Option (Audio × List Int16) :=
  if maxSamples = 0 then some (a, []) else
    let take := if a.audioRingCount < maxSamples then a.audioRingCount else maxSamples
    if 0 < a.audioRingCap ∧ 0 < take then do
      let out ← a.oldest take
      some ({ a with audioRingCount := a.audioRingCount - take }, out)
    else some (a, [])

/-! ## Runs -/

/-- One call. -/
inductive Op
  | push (pcm : List Int16)
  | read (maxSamples : ℕ)
  | tap (on : Bool)

/-- What has happened since the tap went from off to on, as its caller sees it. -/
structure Since where
  pushed : List Int16
  read : List Int16
  dropped₀ : UInt64

/-- One call, and what is recorded of it; a push counts while the tap is on. -/
def step (st : Audio × Since) : Op → Option (Audio × Since)
  | .push pcm => do
    let a ← st.1.push pcm
    some (a, if st.1.audioTapOn then { st.2 with pushed := st.2.pushed ++ pcm } else st.2)
  | .read maxSamples => do
    let (a, out) ← st.1.read maxSamples
    some (a, { st.2 with read := st.2.read ++ out })
  | .tap on =>
    some (st.1.setAudioTap on, if on && !st.1.audioTapOn then ⟨[], [], st.1.audioDropped⟩ else st.2)

/-- `rx_session_open` : a cleared session with the ring that was allocated. -/
def opened (ring : List Int16) : Audio × Since := (⟨ring, ring.length, 0, 0, false, 0⟩, ⟨[], [], 0⟩)

/-! ## Between two calls -/

/-- The place behind the last one of `idx`. -/
def behind (idx : List ℕ) : ℕ := idx.getLast?.elim 0 (· + 1)

/-- The samples read are those at the places `idx`, in their order. -/
structure ReadAt (a : Audio) (h : Since) (idx : List ℕ) : Prop where
  ascending : idx.Pairwise (· < ·)
  read_eq : h.read = idx.map (h.pushed.getD · 0)
  before : ∀ i ∈ idx, i < h.pushed.length - a.audioRingCount
  count_eq : a.audioRingCount = min a.audioRingCap (h.pushed.length - behind idx)

/-- What holds between two calls; `written` is what has gone through the ring since it was emptied. -/
structure Inv (a : Audio) (h : Since) : Prop where
  cap_pos : 0 < a.audioRingCap
  ring : ∃ written,
    Ring.Holds a.audioRingCap ⟨a.audioRing, a.audioRingHead, min written.length a.audioRingCap⟩ written ∧
    a.audioRingCount ≤ min written.length a.audioRingCap ∧
    Ring.recent a.audioRingCount written = Ring.recent a.audioRingCount h.pushed
  count_le : a.audioRingCount ≤ h.pushed.length
  places : ∃ idx, ReadAt a h idx
  total : ∃ d, h.pushed.length = h.read.length + d + a.audioRingCount ∧
    a.audioDropped = h.dropped₀ + UInt64.ofNat d

theorem behind_le {idx : List ℕ} {n : ℕ} (h : ∀ i ∈ idx, i < n) : behind idx ≤ n := by
  unfold behind
  cases hlast : idx.getLast? with
  | none => exact Nat.zero_le n
  | some i => exact h i (List.mem_of_getLast? hlast)

theorem inv_empty {a : Audio} {d : UInt64} (hcap : 0 < a.audioRingCap) (hlen : a.audioRing.length = a.audioRingCap)
    (hhead : a.audioRingHead = 0) (hcount : a.audioRingCount = 0) (hd : a.audioDropped = d) : Inv a ⟨[], [], d⟩ where
  cap_pos := hcap
  ring := by
    refine ⟨[], ?_, by omega, by rw [hcount]⟩
    rw [hhead, ← hlen]
    exact Ring.Holds.empty a.audioRing
  count_le := by omega
  places := ⟨[], .nil, rfl, fun i hi => absurd hi List.not_mem_nil, by simp [hcount]⟩
  total := ⟨0, by rw [hcount]; rfl, by rw [hd]; simp⟩

/-- The loop that writes into the ring is a series of pushes. -/
theorem foldlM_write (vs : List Int16) : ∀ {a : Audio} (written : List Int16), 0 < a.audioRingCap →
    Ring.Holds a.audioRingCap ⟨a.audioRing, a.audioRingHead, min written.length a.audioRingCap⟩ written →
    ∃ ring head, vs.foldlM Audio.write a = some { a with audioRing := ring, audioRingHead := head } ∧
      Ring.Holds a.audioRingCap ⟨ring, head, min (written ++ vs).length a.audioRingCap⟩ (written ++ vs) := by
  induction vs with
  | nil =>
      intro a written _ h
      exact ⟨a.audioRing, a.audioRingHead, rfl, by simpa using h⟩
  | cons v vs ih =>
      intro a written hcap h
      have hhead : a.audioRingHead < a.audioRing.length := by
        have hidx : a.audioRingHead = written.length % a.audioRingCap := h.idx_eq
        have hlen : a.audioRing.length = a.audioRingCap := h.length_slots
        rw [hidx, hlen]
        exact Nat.mod_lt _ hcap
      have hpush := h.push hcap v
      have hcount : (Ring.push a.audioRingCap
          ⟨a.audioRing, a.audioRingHead, min written.length a.audioRingCap⟩ v).count =
          min (written ++ [v]).length a.audioRingCap := hpush.count_eq
      obtain ⟨ring, head, heq, h'⟩ := ih
        (a := { a with
          audioRing := a.audioRing.set a.audioRingHead v
          audioRingHead := (a.audioRingHead + 1) % a.audioRingCap })
        (written ++ [v]) hcap (by rw [← hcount]; exact hpush)
      refine ⟨ring, head, ?_, by rw [List.append_cons]; exact h'⟩
      rw [List.foldlM_cons]
      unfold Audio.write
      rw [store_of_lt hhead]
      exact heq

/-- The places read stay what they are when more samples are pushed. -/
theorem ReadAt.pushed {a a' : Audio} {h : Since} {idx : List ℕ} (hr : ReadAt a h idx) (pcm : List Int16)
    (hle : a.audioRingCount ≤ h.pushed.length) (hcap : a'.audioRingCap = a.audioRingCap)
    (hcount : a'.audioRingCount = min a.audioRingCap (a.audioRingCount + pcm.length)) :
    ReadAt a' { h with pushed := h.pushed ++ pcm } idx := by
  have hbehind := behind_le hr.before
  have heq := hr.count_eq
  refine ⟨hr.ascending, ?_, fun i hi => ?_, ?_⟩
  · rw [hr.read_eq]
    refine List.map_congr_left fun i hi => ?_
    have := hr.before i hi
    exact (List.getD_append _ _ _ _ (by omega)).symm
  · have := hr.before i hi
    show i < (h.pushed ++ pcm).length - a'.audioRingCount
    rw [List.length_append]
    omega
  · show a'.audioRingCount = min a'.audioRingCap ((h.pushed ++ pcm).length - behind idx)
    rw [hcount, hcap, List.length_append]
    omega

/-- A push into the ring, of a chunk of any size. -/
theorem push_spec {a : Audio} {written pcm : List Int16} (hcap : 0 < a.audioRingCap) (hon : a.audioTapOn = true)
    (hpcm : 0 < pcm.length)
    (hw : Ring.Holds a.audioRingCap ⟨a.audioRing, a.audioRingHead, min written.length a.audioRingCap⟩ written) :
    ∃ ring head, a.push pcm = some { a with
          audioRing := ring
          audioRingHead := head
          audioRingCount := min a.audioRingCap (a.audioRingCount + pcm.length)
          audioDropped := a.audioDropped + UInt64.ofNat (a.audioRingCount + pcm.length - a.audioRingCap) } ∧
      Ring.Holds a.audioRingCap ⟨ring, head, min (written ++ Ring.recent a.audioRingCap pcm).length a.audioRingCap⟩
        (written ++ Ring.recent a.audioRingCap pcm) := by
  unfold Audio.push
  rw [if_pos ⟨hon, hcap, hpcm⟩]
  dsimp only
  by_cases hlarge : a.audioRingCap < pcm.length
  · have hlen : (Ring.recent a.audioRingCap pcm).length = a.audioRingCap := by
      rw [Ring.length_recent]
      omega
    obtain ⟨ring, head, heq, hw'⟩ := foldlM_write (Ring.recent a.audioRingCap pcm)
      (a := { a with audioDropped := a.audioDropped + UInt64.ofNat (pcm.length - a.audioRingCap) }) _ hcap hw
    refine ⟨ring, head, ?_, hw'⟩
    have hdrop : pcm.drop (pcm.length - a.audioRingCap) = Ring.recent a.audioRingCap pcm := rfl
    rw [if_pos hlarge, if_pos hlarge, hdrop, heq]
    show (if a.audioRingCap < a.audioRingCount + (Ring.recent a.audioRingCap pcm).length then _ else _) = _
    have hsum : UInt64.ofNat (pcm.length - a.audioRingCap) + UInt64.ofNat a.audioRingCount =
        UInt64.ofNat (a.audioRingCount + pcm.length - a.audioRingCap) := by
      rw [← UInt64.ofNat_add]
      congr 1
      omega
    rw [hlen, ← hsum, ← UInt64.add_assoc, Nat.min_eq_left (by omega)]
    split_ifs with h0
    · rw [Nat.add_sub_cancel]
    · have hzero : a.audioRingCount = 0 := by omega
      rw [hzero, Nat.zero_add]
      simp
  · obtain ⟨ring, head, heq, hw'⟩ := foldlM_write pcm (a := a) _ hcap hw
    have hall : Ring.recent a.audioRingCap pcm = pcm := Ring.recent_of_le (by omega)
    refine ⟨ring, head, ?_, by rw [hall]; exact hw'⟩
    rw [if_neg hlarge, if_neg hlarge, heq]
    show (if a.audioRingCap < a.audioRingCount + pcm.length then _ else _) = _
    split_ifs with hfull
    · rw [Nat.min_eq_left hfull.le]
    · rw [Nat.min_eq_right (by omega), Nat.sub_eq_zero_of_le (by omega)]
      simp

/-- The unread samples after a push are the most recent ones, in the ring as in the history. -/
theorem recent_push {cap count : ℕ} {written pushed pcm : List Int16}
    (h : Ring.recent count written = Ring.recent count pushed) :
    Ring.recent (min cap (count + pcm.length)) (written ++ Ring.recent cap pcm) =
      Ring.recent (min cap (count + pcm.length)) (pushed ++ pcm) := by
  rcases le_total pcm.length cap with hle | hle
  · have hkeep : min cap (count + pcm.length) - pcm.length ≤ count := by omega
    rw [Ring.recent_of_le hle, Ring.recent_append (by omega), Ring.recent_append (by omega),
      ← Ring.recent_recent hkeep written, ← Ring.recent_recent hkeep pushed, h]
  · have hlen : (Ring.recent cap pcm).length = cap := by
      rw [Ring.length_recent]
      omega
    rw [Nat.min_eq_left (by omega), Ring.recent_append_of_le hlen.ge, Ring.recent_append_of_le hle,
      Ring.recent_recent le_rfl]

theorem Inv.push {a : Audio} {h : Since} (hi : Inv a h) (pcm : List Int16) :
    ∃ st, step (a, h) (.push pcm) = some st ∧ Inv st.1 st.2 := by
  obtain ⟨written, hw, hcountw, hrecent⟩ := hi.ring
  obtain ⟨idx, hr⟩ := hi.places
  obtain ⟨d, htotal, hdropped⟩ := hi.total
  have hle := hi.count_le
  unfold step
  by_cases hacts : a.audioTapOn = true ∧ 0 < pcm.length
  · obtain ⟨ring, head, heq, hw'⟩ := push_spec hi.cap_pos hacts.1 hacts.2 hw
    dsimp only
    rw [heq, if_pos hacts.1]
    have hlen : (Ring.recent a.audioRingCap pcm).length = min a.audioRingCap pcm.length := Ring.length_recent _ _
    refine ⟨_, rfl, hi.cap_pos, ⟨_, hw', ?_, recent_push hrecent⟩, ?_, ⟨idx, hr.pushed pcm hle rfl rfl⟩,
      ⟨d + (a.audioRingCount + pcm.length - a.audioRingCap), ?_, ?_⟩⟩
    · show min a.audioRingCap (a.audioRingCount + pcm.length) ≤ min (written ++ _).length a.audioRingCap
      rw [List.length_append, hlen]
      omega
    · show min a.audioRingCap (a.audioRingCount + pcm.length) ≤ (h.pushed ++ pcm).length
      rw [List.length_append]
      omega
    · show (h.pushed ++ pcm).length = h.read.length + _ + min a.audioRingCap (a.audioRingCount + pcm.length)
      rw [List.length_append]
      omega
    · show a.audioDropped + _ = _
      rw [hdropped, UInt64.ofNat_add, UInt64.add_assoc]
  · have hskip : a.push pcm = some a := if_neg fun hc => hacts ⟨hc.1, hc.2.2⟩
    dsimp only
    rw [hskip]
    refine ⟨_, rfl, ?_⟩
    dsimp only
    split_ifs with hon
    · have hnil : pcm = [] := List.eq_nil_of_length_eq_zero (Nat.eq_zero_of_not_pos fun hp => hacts ⟨hon, hp⟩)
      rw [hnil, List.append_nil]
      exact hi
    · exact hi

theorem copyOut_eq {a : Audio} {tail : ℕ} {l : List Int16} : ∀ (n : ℕ) {i : ℕ}, i + n ≤ l.length →
    (∀ j < i + n, a.audioRing[(tail + j) % a.audioRingCap]? = l[j]?) → a.copyOut tail i n = some (slice l i n)
  | 0, i, _, _ => by simp [Audio.copyOut, slice]
  | n + 1, i, hle, h => by
      have hi : i < l.length := by omega
      have hnext := copyOut_eq n (i := i + 1) (by omega) fun j hj => h j (by omega)
      unfold Audio.copyOut
      rw [h i (by omega), List.getElem?_eq_getElem hi, hnext]
      show some (l[i] :: slice l (i + 1) n) = some (slice l i (n + 1))
      unfold slice
      rw [List.drop_eq_getElem_cons hi, List.take_succ_cons]

/-- Reading gives the oldest unread samples. -/
theorem Inv.oldest {a : Audio} {h : Since} (hi : Inv a h) {n : ℕ} (hn : n ≤ a.audioRingCount) :
    a.oldest n = some ((Ring.recent a.audioRingCount h.pushed).take n) := by
  obtain ⟨written, hw, hcountw, hrecent⟩ := hi.ring
  have hlen : (Ring.recent a.audioRingCount written).length = a.audioRingCount := by
    rw [Ring.length_recent]
    omega
  rw [← hrecent]
  generalize hl : Ring.recent a.audioRingCount written = l at hlen ⊢
  refine copyOut_eq n (by omega) fun j hj => ?_
  have hback := hw.back hcountw (i := j) (by omega)
  rw [← hl, Ring.recent, List.getElem?_drop]
  exact hback

theorem pairwise_range' : ∀ (n s : ℕ), ((List.range n).map (s + ·)).Pairwise (· < ·) := by
  intro n s
  rw [List.pairwise_map]
  exact List.pairwise_lt_range.imp fun h => by omega

/-- The places of the next `take` samples follow those already read. -/
theorem ReadAt.read {a a' : Audio} {h : Since} {idx : List ℕ} (hr : ReadAt a h idx) {take : ℕ} (hpos : 0 < take)
    (htake : take ≤ a.audioRingCount) (hle : a.audioRingCount ≤ h.pushed.length)
    (hcount : a'.audioRingCount = a.audioRingCount - take) (hcap : a'.audioRingCap = a.audioRingCap) :
    ReadAt a' { h with read := h.read ++ (Ring.recent a.audioRingCount h.pushed).take take }
      (idx ++ (List.range take).map (h.pushed.length - a.audioRingCount + ·)) where
  ascending := by
    refine List.pairwise_append.mpr ⟨hr.ascending, pairwise_range' _ _, fun i hi j hj => ?_⟩
    obtain ⟨k, _, rfl⟩ := List.mem_map.mp hj
    have := hr.before i hi
    omega
  read_eq := by
    show h.read ++ _ = _
    rw [List.map_append, ← hr.read_eq, List.map_map]
    congr 1
    refine List.ext_getElem ?_ fun i hi hi' => ?_
    · rw [List.length_take, Ring.length_recent, List.length_map, List.length_range]
      omega
    · rw [List.length_map, List.length_range] at hi'
      simp only [List.getElem_take, Ring.recent, List.getElem_drop, List.getElem_map, List.getElem_range,
        Function.comp_apply]
      exact (List.getD_eq_getElem _ _ (by omega)).symm
  before := by
    refine List.forall_mem_append.mpr ⟨fun i hi => ?_, fun i hi => ?_⟩
    · have := hr.before i hi
      show i < h.pushed.length - a'.audioRingCount
      omega
    · obtain ⟨k, hk, rfl⟩ := List.mem_map.mp hi
      have := List.mem_range.mp hk
      show _ < h.pushed.length - a'.audioRingCount
      omega
  count_eq := by
    have heq := hr.count_eq
    have hlast : behind (idx ++ (List.range take).map (h.pushed.length - a.audioRingCount + ·)) =
        h.pushed.length - a.audioRingCount + take := by
      obtain ⟨n, rfl⟩ : ∃ n, take = n + 1 := ⟨take - 1, by omega⟩
      unfold behind
      rw [List.range_succ, List.map_append, ← List.append_assoc, List.map_singleton, List.getLast?_concat]
      rfl
    show a'.audioRingCount = min a'.audioRingCap (h.pushed.length - behind _)
    rw [hlast, hcount, hcap]
    omega

theorem Inv.read {a : Audio} {h : Since} (hi : Inv a h) (maxSamples : ℕ) :
    ∃ st, step (a, h) (.read maxSamples) = some st ∧ Inv st.1 st.2 := by
  have hsame : Inv a { h with read := h.read ++ [] } := by
    rw [List.append_nil]
    exact hi
  unfold step Audio.read
  by_cases h0 : maxSamples = 0
  · dsimp only
    rw [if_pos h0]
    exact ⟨_, rfl, hsame⟩
  have hmin : (if a.audioRingCount < maxSamples then a.audioRingCount else maxSamples) =
      min a.audioRingCount maxSamples := by
    split_ifs <;> omega
  dsimp only
  rw [if_neg h0, hmin]
  by_cases hpos : 0 < a.audioRingCap ∧ 0 < min a.audioRingCount maxSamples
  · rw [if_pos hpos, hi.oldest (Nat.min_le_left _ _)]
    obtain ⟨written, hw, hcountw, hrecent⟩ := hi.ring
    obtain ⟨idx, hr⟩ := hi.places
    obtain ⟨d, htotal, hdropped⟩ := hi.total
    have hle := hi.count_le
    refine ⟨_, rfl, hi.cap_pos, ⟨written, hw, ?_, ?_⟩, ?_,
      ⟨_, hr.read hpos.2 (Nat.min_le_left _ _) hle rfl rfl⟩, ⟨d, ?_, hdropped⟩⟩
    · show a.audioRingCount - _ ≤ min written.length a.audioRingCap
      omega
    · show Ring.recent (a.audioRingCount - _) written = Ring.recent (a.audioRingCount - _) h.pushed
      rw [← Ring.recent_recent (Nat.sub_le _ _) written, hrecent, Ring.recent_recent (Nat.sub_le _ _)]
    · show a.audioRingCount - _ ≤ h.pushed.length
      omega
    · show h.pushed.length = (h.read ++ _).length + d + (a.audioRingCount - _)
      rw [List.length_append, List.length_take, Ring.length_recent]
      omega
  · rw [if_neg hpos]
    exact ⟨_, rfl, hsame⟩

theorem Inv.tap {a : Audio} {h : Since} (hi : Inv a h) (on : Bool) :
    ∃ st, step (a, h) (.tap on) = some st ∧ Inv st.1 st.2 := by
  refine ⟨_, rfl, ?_⟩
  unfold Audio.setAudioTap
  dsimp only
  split_ifs
  · obtain ⟨written, hw, _⟩ := hi.ring
    exact inv_empty hi.cap_pos hw.length_slots rfl rfl rfl
  · exact ⟨hi.cap_pos, hi.ring, hi.count_le,
      hi.places.imp fun _ hr => ⟨hr.ascending, hr.read_eq, hr.before, hr.count_eq⟩, hi.total⟩

/-- Every call succeeds and keeps the invariant. -/
theorem Inv.step {st : Audio × Since} (hi : Inv st.1 st.2) (op : Op) :
    ∃ st', AudioRing.step st op = some st' ∧ Inv st'.1 st'.2 := by
  cases op with
  | push pcm => exact hi.push pcm
  | read maxSamples => exact hi.read maxSamples
  | tap on => exact hi.tap on

/-- **The live-audio ring.** No call leaves the ring. Since the tap was last switched on: the samples read are those at
ascending places of the samples pushed while it was on; the unread ones are the most recent ones that were pushed after
the last one read, as many as fit; and every pushed sample has been read, dropped or is still in the ring. -/
theorem audioRing_spec {ring : List Int16} (hcap : 0 < ring.length) (ops : List Op) :
    ∃ a h, ops.foldlM step (opened ring) = some (a, h) ∧
      (∃ idx : List ℕ, idx.Pairwise (· < ·) ∧ h.read = idx.map (h.pushed.getD · 0) ∧
        (∀ i ∈ idx, i < h.pushed.length - a.audioRingCount) ∧
        a.audioRingCount = min a.audioRingCap (h.pushed.length - behind idx)) ∧
      a.oldest a.audioRingCount = some (h.pushed.drop (h.pushed.length - a.audioRingCount)) ∧
      ∃ d, h.pushed.length = h.read.length + d + a.audioRingCount ∧ a.audioDropped = h.dropped₀ + UInt64.ofNat d := by
  obtain ⟨⟨a, h⟩, heq, hi⟩ := foldlM_runs (P := fun st : Audio × Since => Inv st.1 st.2) ops
    (fun op _ st hst => hst.step op) (inv_empty (a := (opened ring).1) hcap rfl rfl rfl rfl)
  refine ⟨a, h, heq, ?_, ?_, hi.total⟩
  · obtain ⟨idx, hr⟩ := hi.places
    exact ⟨idx, hr.ascending, hr.read_eq, hr.before, hr.count_eq⟩
  · rw [hi.oldest le_rfl, List.take_of_length_le]
    · rfl
    · rw [Ring.length_recent]
      exact Nat.min_le_left _ _

/-- Chunks that wrap around a ring of three samples, read in between. -/
theorem audioRing_spec_wrapped :
    ∃ a h, [Op.tap true, .push [1, 2], .read 1, .push [3, 4, 5], .read 2].foldlM step (opened [0, 0, 0]) = some (a, h) ∧
      ∃ d, h.pushed.length = h.read.length + d + a.audioRingCount ∧ a.audioDropped = h.dropped₀ + UInt64.ofNat d := by
  obtain ⟨a, h, heq, -, -, htotal⟩ := audioRing_spec (show 0 < [(0 : Int16), 0, 0].length by decide)
    [Op.tap true, .push [1, 2], .read 1, .push [3, 4, 5], .read 2]
  exact ⟨a, h, heq, htotal⟩

/-- The samples passed to `audio_ring_push` since the last call that switches the tap on. -/
def passed (ops : List Op) : List Int16 :=
  ops.foldl (fun xs op =>
    match op with
    | .push pcm => xs ++ pcm
    | .read _ => xs
    | .tap on => if on then [] else xs) []

/-- A chunk passed after the tap has been switched off again goes nowhere. -/
theorem audioRing_ignores :
    ¬ ∀ (ring : List Int16) (ops : List Op) (a : Audio) (h : Since), 0 < ring.length →
      ops.foldlM step (opened ring) = some (a, h) →
      (passed ops).length = h.read.length + (a.audioDropped - h.dropped₀).toNat + a.audioRingCount := by
  intro hall
  exact absurd (hall [0] [.tap true, .tap false, .push [7]] _ _ (by decide) rfl) (by decide)

end SimpleSatOps.AudioRing
