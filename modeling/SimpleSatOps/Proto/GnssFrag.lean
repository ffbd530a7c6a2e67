import Mathlib.Data.Int.Notation
import Mathlib.Tactic
import SimpleSatOps.Lib.Fold
import SimpleSatOps.Lib.Run

/-!
# Fragments of a telecommand response (`gnss_reassemble`)

A fragment carries `TCMD_RESP_MAX_DATA` = 186 bytes of the response behind a header of `TCMD_RESP_HDR_LEN` = 14.

* `Frag`, `OutBuf` : a stored fragment, and the caller's buffer;
* `gnssReassemble` : `none` where an access leaves an array or an `int` overflows;
* `IsFrag` : the fragment the firmware sends for one piece of a message;
* `Filled`, `Filled.place` : what the buffer holds when some pieces have been placed, and one more;
* `reassemble_spec`, `reassemble_safe` : genuine fragments in any order, and arbitrary ones.
-/

namespace SimpleSatOps.GnssFrag

/-- The part of `gnss_frag_t` that `gnss_reassemble` reads. -/
structure Frag where
  payload : List UInt8
  seq : ℤ

/-- `buf` and its `int bufcap`. -/
structure OutBuf where
  bytes : List UInt8
  pos : 0 < bytes.length
  lt : bytes.length < 2 ^ 31

/-! ## The source -/

/-- `memcpy(buf + off, src + pos, n)`. -/
def copyAt (buf : List UInt8) (off : ℕ) (src : List UInt8) (pos n : ℕ) : Option (List UInt8) :=
  if n = 0 then some buf
  else if pos + n ≤ src.length ∧ off + n ≤ buf.length then some (patch buf off (slice src pos n)) else none

/-- The body of the loop over the fragments; the state is `total` and the buffer. -/
def place (st : ℕ × List UInt8) (f : Frag) : Option (ℕ × List UInt8) :=
  let dl := f.payload.length - 14
  let dl := if 186 < dl then 186 else dl
  let off := (f.seq - 1) * 186
  if off < -2 ^ 31 ∨ 2 ^ 31 ≤ off + dl then none
  else if off < 0 ∨ st.2.length < off + dl then some st
  else do
    let buf ← copyAt st.2 off.toNat f.payload 14 dl
    some (if st.1 < off.toNat + dl then off.toNat + dl else st.1, buf)

/-- `gnss_reassemble` : the length it returns and the buffer. -/
def gnssReassemble (frags : List Frag) (buf : OutBuf) : Option (ℕ × List UInt8) := do
  let bufcap := buf.bytes.length
  let st ← frags.foldlM place (0, List.replicate bufcap 0)
  let total := if bufcap ≤ st.1 then bufcap - 1 else st.1
  let out ← store st.2 total 0
  some (total, out)

/-! ## The firmware's fragments -/

/-- The bytes of the message in its fragment `k + 1`. -/
def piece (msg : List UInt8) (k : ℕ) : List UInt8 := slice msg (186 * k) 186

/-- `response_max_seq_num`. -/
def numFrags (msg : List UInt8) : ℕ := (msg.length + 185) / 186

/-- The fragment `k + 1` of the message; a full one may be followed by a checksum. -/
structure IsFrag (msg : List UInt8) (f : Frag) (k : ℕ) : Prop where
  lt : k < numFrags msg
  seq : f.seq = k + 1
  payload : ∃ header trailer, header.length = 14 ∧ f.payload = header ++ piece msg k ++ trailer ∧
    ((piece msg k).length < 186 → trailer = [])

/-- The result is the message, with a NUL behind it. -/
def Yields (out : ℕ × List UInt8) (msg : List UInt8) : Prop :=
  out.1 = msg.length ∧ out.2.take (msg.length + 1) = msg ++ [0]

/-! ## One fragment -/

theorem length_piece (msg : List UInt8) (k : ℕ) : (piece msg k).length = min 186 (msg.length - 186 * k) := by
  simp [piece, slice]

theorem getElem?_piece {msg : List UInt8} {k i : ℕ} (h : i < 186) : (piece msg k)[i]? = msg[186 * k + i]? := by
  simp [piece, slice, h]

theorem getElem?_patch {buf vs : List UInt8} {i : ℕ} (h : i + vs.length ≤ buf.length) (j : ℕ) :
    (patch buf i vs)[j]? = if i ≤ j ∧ j < i + vs.length then vs[j - i]? else buf[j]? := by
  have hlen : (buf.take i).length = i := List.length_take_of_le (by omega)
  unfold patch
  rw [List.append_assoc]
  rcases Nat.lt_or_ge j i with hj | hj
  · rw [if_neg (by omega), List.getElem?_append_left (by omega), List.getElem?_take, if_pos hj]
  · rw [List.getElem?_append_right (by omega), hlen]
    by_cases hj' : j < i + vs.length
    · rw [if_pos ⟨hj, hj'⟩, List.getElem?_append_left (by omega)]
    · rw [if_neg (by omega), List.getElem?_append_right (by omega), List.getElem?_drop]
      congr 1
      omega

/-- A genuine fragment whose place is inside the buffer is copied there. -/
theorem place_frag {msg : List UInt8} {f : Frag} {k : ℕ} (h : IsFrag msg f k) {st : ℕ × List UInt8}
    (hcap : msg.length < st.2.length) (hint : st.2.length < 2 ^ 31) :
    place st f = some (max st.1 (186 * k + (piece msg k).length), patch st.2 (186 * k) (piece msg k)) := by
  obtain ⟨header, trailer, hh, hp, ht⟩ := h.payload
  have hk : k < (msg.length + 185) / 186 := h.lt
  have hlen := length_piece msg k
  have hpay : f.payload.length = 14 + (piece msg k).length + trailer.length := by
    rw [hp, List.length_append, List.length_append, hh]
  have hdl : (if 186 < f.payload.length - 14 then 186 else f.payload.length - 14) = (piece msg k).length := by
    by_cases hfull : (piece msg k).length < 186
    · rw [ht hfull, List.length_nil] at hpay
      split_ifs <;> omega
    · split_ifs <;> omega
  have hoff : (f.seq - 1) * 186 = ((186 * k : ℕ) : ℤ) := by
    rw [h.seq]
    push_cast
    ring
  have hslice : slice f.payload 14 (piece msg k).length = piece msg k := by
    rw [hp, ← hh]
    exact slice_append_left header (piece msg k) trailer
  unfold place
  dsimp only
  rw [hdl, hoff, Int.toNat_natCast, if_neg (by omega), if_neg (by omega)]
  unfold copyAt
  rw [if_neg (by omega), if_pos ⟨by omega, by omega⟩, hslice]
  have hmax : (if st.1 < 186 * k + (piece msg k).length then 186 * k + (piece msg k).length else st.1) =
      max st.1 (186 * k + (piece msg k).length) := by
    split_ifs <;> omega
  show some _ = _
  rw [hmax]

/-! ## Some of the fragments -/

/-- The pieces in `K` have been placed, and nothing else. -/
structure Filled (msg : List UInt8) (cap : ℕ) (K : ℕ → Prop) (st : ℕ × List UInt8) : Prop where
  length : st.2.length = cap
  present : ∀ j < msg.length, K (j / 186) → st.2[j]? = msg[j]?
  absent : ∀ j < cap, (j < msg.length → ¬ K (j / 186)) → st.2[j]? = some 0
  reaches : ∀ k, K k → min (186 * (k + 1)) msg.length ≤ st.1
  total_eq : st.1 = 0 ∨ ∃ k, K k ∧ st.1 = min (186 * (k + 1)) msg.length

variable {msg : List UInt8} {cap : ℕ} {K : ℕ → Prop} {st : ℕ × List UInt8}

theorem filled_empty (msg : List UInt8) (cap : ℕ) : Filled msg cap (fun _ => False) (0, List.replicate cap 0) where
  length := List.length_replicate
  present _ _ h := h.elim
  absent j hj _ := by rw [List.getElem?_replicate, if_pos hj]
  reaches _ h := h.elim
  total_eq := .inl rfl

/-- One more fragment. -/
theorem Filled.place {f : Frag} {k : ℕ} (h : Filled msg cap K st) (hf : IsFrag msg f k) (hcap : msg.length < cap)
    (hint : cap < 2 ^ 31) :
    ∃ st', GnssFrag.place st f = some st' ∧ Filled msg cap (fun i => K i ∨ i = k) st' := by
  have hk : k < (msg.length + 185) / 186 := hf.lt
  have hlen := length_piece msg k
  have hroom : 186 * k + (piece msg k).length ≤ st.2.length := by
    rw [h.length]
    omega
  have hend : 186 * k + (piece msg k).length = min (186 * (k + 1)) msg.length := by omega
  have hget := getElem?_patch hroom
  refine ⟨_, place_frag hf (by rw [h.length]; exact hcap) (by rw [h.length]; exact hint), ?_, ?_, ?_, ?_, ?_⟩
  · rw [← h.length]
    exact length_patch hroom
  · intro j hj hKj
    show (patch st.2 (186 * k) (piece msg k))[j]? = msg[j]?
    rw [hget]
    by_cases hin : 186 * k ≤ j ∧ j < 186 * k + (piece msg k).length
    · rw [if_pos hin, getElem?_piece (by omega)]
      congr 1
      omega
    · rw [if_neg hin]
      refine h.present j hj (hKj.resolve_right fun hjk => hin ?_)
      omega
  · intro j hj hnone
    show (patch st.2 (186 * k) (piece msg k))[j]? = some 0
    rw [hget, if_neg, h.absent j hj fun hlt hKj => hnone hlt (.inl hKj)]
    intro hin
    exact hnone (by omega) (.inr (by omega))
  · intro i hi
    show min (186 * (i + 1)) msg.length ≤ max st.1 (186 * k + (piece msg k).length)
    rcases hi with hi | rfl
    · exact le_max_of_le_left (h.reaches i hi)
    · exact le_max_of_le_right hend.ge
  · show max st.1 (186 * k + (piece msg k).length) = 0 ∨
      ∃ i, (K i ∨ i = k) ∧ max st.1 (186 * k + (piece msg k).length) = min (186 * (i + 1)) msg.length
    rcases le_total st.1 (186 * k + (piece msg k).length) with hle | hle
    · exact .inr ⟨k, .inr rfl, (max_eq_right hle).trans hend⟩
    · rw [max_eq_left hle]
      exact h.total_eq.imp_right fun ⟨i, hi, heq⟩ => ⟨i, .inl hi, heq⟩

/-- Genuine fragments of one message, in any order and number. -/
theorem Filled.placeAll (hcap : msg.length < cap) (hint : cap < 2 ^ 31) : ∀ (frags : List Frag) {K : ℕ → Prop}
    {st : ℕ × List UInt8}, Filled msg cap K st → (∀ f ∈ frags, ∃ k, IsFrag msg f k) →
    ∃ st', frags.foldlM GnssFrag.place st = some st' ∧
      Filled msg cap (fun k => K k ∨ ∃ f ∈ frags, IsFrag msg f k) st'
  | [], K, st, h, _ => ⟨st, rfl, by simpa using h⟩
  | f :: frags, K, st, h, hall => by
      obtain ⟨k, hk⟩ := hall f List.mem_cons_self
      obtain ⟨st₁, heq₁, h₁⟩ := h.place hk hcap hint
      obtain ⟨st₂, heq₂, h₂⟩ := placeAll hcap hint frags h₁ fun g hg => hall g (List.mem_cons_of_mem _ hg)
      refine ⟨st₂, by rw [List.foldlM_cons, heq₁]; exact heq₂, ?_⟩
      have hsame : ∀ i, IsFrag msg f i ↔ i = k := by
        intro i
        constructor
        · intro hi
          have := hi.seq.symm.trans hk.seq
          omega
        · rintro rfl
          exact hk
      have hK : (fun i => (K i ∨ i = k) ∨ ∃ g ∈ frags, IsFrag msg g i) =
          fun i => K i ∨ ∃ g ∈ f :: frags, IsFrag msg g i := by
        funext i
        simp only [List.mem_cons, exists_eq_or_imp, hsame, or_assoc]
      exact hK ▸ h₂

theorem mem_piece {v : UInt8} {k : ℕ} (h : v ∈ piece msg k) : ∃ j, j / 186 = k ∧ msg[j]? = some v := by
  obtain ⟨i, hi⟩ := List.mem_iff_getElem?.mp h
  have hlt := (List.getElem?_eq_some_iff.mp hi).1
  rw [length_piece] at hlt
  rw [getElem?_piece (by omega)] at hi
  exact ⟨186 * k + i, by omega, hi⟩

theorem getElem_mem_piece {v : UInt8} {j : ℕ} (h : msg[j]? = some v) : v ∈ piece msg (j / 186) := by
  refine List.mem_iff_getElem?.mpr ⟨j % 186, ?_⟩
  rw [getElem?_piece (by omega), Nat.div_add_mod, h]

/-- The terminated buffer holds the message. -/
theorem yields_iff_bytes (hcap : msg.length < st.2.length) :
    Yields (st.1, st.2.set st.1 0) msg ↔ st.1 = msg.length ∧ ∀ j < msg.length, st.2[j]? = msg[j]? := by
  constructor
  · rintro ⟨hlen, htake⟩
    replace hlen : st.1 = msg.length := hlen
    refine ⟨hlen, fun j hj => ?_⟩
    have hget := congrArg (·[j]?) htake
    simp only [List.getElem?_take] at hget
    rwa [if_pos (by omega), List.getElem?_set_ne (by omega), List.getElem?_append_left hj] at hget
  · rintro ⟨hlen, hbyte⟩
    refine ⟨hlen, List.ext_getElem? fun j => ?_⟩
    show ((st.2.set st.1 0).take (msg.length + 1))[j]? = _
    rw [List.getElem?_take, hlen]
    rcases Nat.lt_trichotomy j msg.length with hj | rfl | hj
    · rw [if_pos (by omega), List.getElem?_set_ne (by omega), List.getElem?_append_left hj, hbyte j hj]
    · rw [if_pos (by omega), List.getElem?_set_self hcap, List.getElem?_append_right le_rfl, Nat.sub_self]
      rfl
    · rw [if_neg (by omega), List.getElem?_eq_none (by simpa using hj)]

/-- The placed pieces make up the message exactly when the others are NULs before the last one. -/
theorem Filled.yields_iff (h : Filled msg cap K st) (hcap : msg.length < cap) (hK : ∀ k, K k → k < numFrags msg) :
    Yields (st.1, st.2.set st.1 0) msg ↔
      ∀ k < numFrags msg, ¬ K k → k + 1 < numFrags msg ∧ ∀ v ∈ piece msg k, v = 0 := by
  have hnum : numFrags msg = (msg.length + 185) / 186 := rfl
  have htotal : st.1 ≤ msg.length := by
    rcases h.total_eq with h0 | ⟨k, _, hk⟩ <;> omega
  rw [yields_iff_bytes (by rw [h.length]; exact hcap)]
  constructor
  · rintro ⟨hlen, hbyte⟩ k hk hnone
    refine ⟨?_, fun v hv => ?_⟩
    · rcases h.total_eq with h0 | ⟨k', hk', heq⟩
      · omega
      · have hlt := hK k' hk'
        have hne : k ≠ k' := by
          rintro rfl
          exact hnone hk'
        omega
    · obtain ⟨j, rfl, hj⟩ := mem_piece hv
      have hlt := (List.getElem?_eq_some_iff.mp hj).1
      have hzero := h.absent j (by omega) fun _ => hnone
      rw [hbyte j hlt, hj] at hzero
      exact Option.some.inj hzero
  · intro hall
    refine ⟨?_, fun j hj => ?_⟩
    · by_cases h0 : msg.length = 0
      · omega
      · by_cases hlast : K (numFrags msg - 1)
        · have := h.reaches _ hlast
          omega
        · have := (hall (numFrags msg - 1) (by omega) hlast).1
          omega
    · by_cases hKj : K (j / 186)
      · exact h.present j hj hKj
      · have hv := List.getElem?_eq_getElem hj
        rw [h.absent j (by omega) fun _ => hKj, hv, (hall (j / 186) (by omega) hKj).2 _ (getElem_mem_piece hv)]

/-- The result for genuine fragments of one message. -/
theorem reassemble_spec {frags : List Frag} {buf : OutBuf} (hlt : msg.length < buf.bytes.length)
    (hall : ∀ f ∈ frags, ∃ k, IsFrag msg f k) :
    ∃ out, gnssReassemble frags buf = some out ∧
      (Yields out msg ↔ ∀ k < numFrags msg, (∀ f ∈ frags, ¬ IsFrag msg f k) →
        k + 1 < numFrags msg ∧ ∀ v ∈ piece msg k, v = 0) := by
  obtain ⟨st, heq, h⟩ := Filled.placeAll hlt buf.lt frags (filled_empty msg buf.bytes.length) hall
  have htotal : st.1 ≤ msg.length := by
    rcases h.total_eq with h0 | ⟨k, _, hk⟩ <;> omega
  have hstore : store st.2 st.1 0 = some (st.2.set st.1 0) := store_of_lt (by rw [h.length]; omega) 0
  refine ⟨(st.1, st.2.set st.1 0), ?_, ?_⟩
  · unfold gnssReassemble
    dsimp only
    rw [heq]
    show (store st.2 (if buf.bytes.length ≤ st.1 then buf.bytes.length - 1 else st.1) 0).bind _ = _
    rw [if_neg (by omega), hstore]
    rfl
  · refine (h.yields_iff hlt fun k hk => ?_).trans ?_
    · rcases hk with hk | ⟨f, _, hf⟩
      · exact hk.elim
      · exact hf.lt
    · simp only [false_or, not_exists, not_and]

/-! ## Arbitrary fragments -/

theorem copyAt_safe (buf src : List UInt8) (off pos : ℕ) {n : ℕ} (hsrc : n ≤ src.length - pos)
    (hoff : off + n ≤ buf.length) :
    ∃ buf', copyAt buf off src pos n = some buf' ∧ buf'.length = buf.length := by
  unfold copyAt
  by_cases h0 : n = 0
  · exact ⟨buf, if_pos h0, rfl⟩
  · have hslice := length_slice (show pos + n ≤ src.length by omega)
    rw [if_neg h0, if_pos ⟨by omega, hoff⟩]
    exact ⟨_, rfl, length_patch (by rw [hslice]; exact hoff)⟩

theorem place_safe (st : ℕ × List UInt8) {f : Frag} (hseq : 0 ≤ f.seq ∧ f.seq ≤ 255) :
    ∃ st', place st f = some st' ∧ st'.2.length = st.2.length := by
  unfold place
  dsimp only
  have hdl : (if 186 < f.payload.length - 14 then 186 else f.payload.length - 14) =
      min 186 (f.payload.length - 14) := by
    split_ifs <;> omega
  rw [hdl, if_neg (by omega)]
  by_cases hskip : (f.seq - 1) * 186 < 0 ∨ (st.2.length : ℤ) < (f.seq - 1) * 186 + (min 186 (f.payload.length - 14) : ℕ)
  · rw [if_pos hskip]
    exact ⟨st, rfl, rfl⟩
  · rw [if_neg hskip]
    obtain ⟨buf', hbuf, hlen⟩ := copyAt_safe st.2 f.payload ((f.seq - 1) * 186).toNat 14
      (n := min 186 (f.payload.length - 14)) (by omega) (by omega)
    rw [hbuf]
    exact ⟨_, rfl, hlen⟩

/-- Whatever the fragments hold, the buffer is never left. -/
theorem reassemble_safe {frags : List Frag} (buf : OutBuf) (hseq : ∀ f ∈ frags, 0 ≤ f.seq ∧ f.seq ≤ 255) :
    ∃ out, gnssReassemble frags buf = some out ∧ out.2.length = buf.bytes.length := by
  have hpos := buf.pos
  obtain ⟨st, heq, hlen⟩ := foldlM_runs (f := place) (P := fun st => st.2.length = buf.bytes.length) frags
    (fun f hf t ht => by
      obtain ⟨t', heq, hlen⟩ := place_safe t (hseq f hf)
      exact ⟨t', heq, hlen.trans ht⟩)
    (s := (0, List.replicate buf.bytes.length 0)) List.length_replicate
  unfold gnssReassemble
  dsimp only
  rw [heq]
  show ∃ out, (store st.2 (if buf.bytes.length ≤ st.1 then buf.bytes.length - 1 else st.1) 0).bind _ = some out ∧ _
  rw [store_of_lt (by split_ifs <;> omega)]
  refine ⟨_, rfl, ?_⟩
  rw [List.length_set, hlen]

/-- **Reassembly of fragments.** Genuine fragments of a message shorter than the buffer, in any order and with any
duplicates, give the message when none is missing; with some missing they give it only if the missing ones are not the
last one and carry nothing but NULs. No fragment leaves the buffer, whatever it holds. -/
theorem gnssReassemble_fragments (buf : OutBuf) :
    (∀ (msg : List UInt8) (frags : List Frag), msg.length < buf.bytes.length → (∀ f ∈ frags, ∃ k, IsFrag msg f k) →
      ((∀ k < numFrags msg, ∃ f ∈ frags, IsFrag msg f k) →
        ∃ out, gnssReassemble frags buf = some out ∧ Yields out msg) ∧
      ((∃ out, gnssReassemble frags buf = some out ∧ Yields out msg) ↔
        ∀ k < numFrags msg, (∀ f ∈ frags, ¬ IsFrag msg f k) → k + 1 < numFrags msg ∧ ∀ v ∈ piece msg k, v = 0)) ∧
      ∀ frags : List Frag, (∀ f ∈ frags, 0 ≤ f.seq ∧ f.seq ≤ 255) →
        ∃ out, gnssReassemble frags buf = some out ∧ out.2.length = buf.bytes.length := by
  refine ⟨fun msg frags hlt hall => ?_, fun frags hseq => reassemble_safe buf hseq⟩
  obtain ⟨out, heq, hiff⟩ := reassemble_spec hlt hall
  refine ⟨fun hpresent => ⟨out, heq, hiff.mpr fun k hk hnone => ?_⟩, ?_, fun h => ⟨out, heq, hiff.mpr h⟩⟩
  · obtain ⟨f, hf, hfk⟩ := hpresent k hk
    exact absurd hfk (hnone f hf)
  · rintro ⟨out', heq', hyields⟩
    obtain rfl := Option.some.inj (heq.symm.trans heq')
    exact hiff.mp hyields

/-- A fragment of `n` NULs. -/
def nulFrag (seq : ℤ) (n : ℕ) : Frag := ⟨List.replicate (14 + n) 0, seq⟩

/-- A destination of `n + 1` bytes. -/
def outBuf (n : ℕ) (h : n + 1 < 2 ^ 31) : OutBuf where
  bytes := List.replicate (n + 1) 0
  pos := by rw [List.length_replicate]; omega
  lt := by rw [List.length_replicate]; exact h

theorem piece_replicate (v : UInt8) (n k : ℕ) :
    piece (List.replicate n v) k = List.replicate (min 186 (n - 186 * k)) v := by
  simp [piece, slice, List.drop_replicate, List.take_replicate]

theorem isFrag_nuls {n k : ℕ} (h : 186 * k < n) :
    IsFrag (List.replicate n 0) (nulFrag (k + 1) (min 186 (n - 186 * k))) k where
  lt := by
    unfold numFrags
    rw [List.length_replicate]
    omega
  seq := rfl
  payload := by
    refine ⟨List.replicate 14 0, [], List.length_replicate, ?_, fun _ => rfl⟩
    rw [piece_replicate, List.append_nil]
    exact List.replicate_add 14 _ 0

/-- Both fragments of 187 NULs, the second one first. -/
theorem gnssReassemble_fragments_nuls :
    ∃ out, gnssReassemble [nulFrag 2 1, nulFrag 1 186] (outBuf 187 (by decide)) = some out ∧
      Yields out (List.replicate 187 0) := by
  have h0 : IsFrag (List.replicate 187 0) (nulFrag 1 186) 0 := isFrag_nuls (n := 187) (k := 0) (by decide)
  have h1 : IsFrag (List.replicate 187 0) (nulFrag 2 1) 1 := isFrag_nuls (n := 187) (k := 1) (by decide)
  refine ((gnssReassemble_fragments (outBuf 187 (by decide))).1 (List.replicate 187 0) _ ?_ ?_).1 ?_
  · show (List.replicate 187 (0 : UInt8)).length < (List.replicate 188 (0 : UInt8)).length
    rw [List.length_replicate, List.length_replicate]
    decide
  · exact List.forall_mem_cons.mpr ⟨⟨1, h1⟩, List.forall_mem_singleton.mpr ⟨0, h0⟩⟩
  · intro k hk
    unfold numFrags at hk
    rw [List.length_replicate] at hk
    rcases (show k = 0 ∨ k = 1 by omega) with rfl | rfl
    · exact ⟨_, by simp, h0⟩
    · exact ⟨_, by simp, h1⟩

/-- 187 NULs without their first fragment. -/
theorem gnssReassemble_of_nuls :
    ¬ ∀ (buf : OutBuf) (msg : List UInt8) (frags : List Frag), msg.length < buf.bytes.length →
      (∀ f ∈ frags, ∃ k, IsFrag msg f k) → (∃ k < numFrags msg, ∀ f ∈ frags, ¬ IsFrag msg f k) →
      ∀ out, gnssReassemble frags buf = some out → ¬ Yields out msg := by
  intro h
  have h1 : IsFrag (List.replicate 187 0) (nulFrag 2 1) 1 := isFrag_nuls (n := 187) (k := 1) (by decide)
  have hnum : numFrags (List.replicate 187 0) = 2 := by
    unfold numFrags
    rw [List.length_replicate]
  have hlt : (List.replicate 187 (0 : UInt8)).length < (outBuf 187 (by decide)).bytes.length := by
    show (List.replicate 187 (0 : UInt8)).length < (List.replicate 188 (0 : UInt8)).length
    rw [List.length_replicate, List.length_replicate]
    decide
  have hall : ∀ f ∈ [nulFrag 2 1], ∃ k, IsFrag (List.replicate 187 0) f k := List.forall_mem_singleton.mpr ⟨1, h1⟩
  have hone : ∀ k, IsFrag (List.replicate 187 0) (nulFrag 2 1) k → k = 1 := by
    intro k hk
    have := hk.seq.symm.trans h1.seq
    omega
  obtain ⟨out, heq, hiff⟩ := reassemble_spec hlt hall
  refine h _ _ _ hlt hall ⟨0, by rw [hnum]; decide, ?_⟩ out heq (hiff.mpr fun k hk hnone => ⟨?_, fun v hv => ?_⟩)
  · exact List.forall_mem_singleton.mpr fun hf => absurd (hone 0 hf) (by decide)
  · have hk1 : k ≠ 1 := by
      rintro rfl
      exact hnone _ List.mem_cons_self h1
    omega
  · rw [piece_replicate] at hv
    exact List.eq_of_mem_replicate hv

end SimpleSatOps.GnssFrag
