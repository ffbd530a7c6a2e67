import SimpleSatOps.Lib.Crc
import SimpleSatOps.Lib.Hamming
import SimpleSatOps.Dsp.ModemIq
import Mathlib.NumberTheory.LucasLehmer

/-!
# The CSP checksum trailer (`csp.c`, `rx_session.c`)

* `cspCrc32c`, `checkTrailer` : the checksum and what `try_decode_iq_at_window` makes of a packet's last four bytes;
* `cspCrc32c_remainder` : the checksum is a remainder modulo the Castagnoli polynomial;
* `cspCrc32c_burst`, `cspCrc32c_airBurst` : changes it sees, in its own bit order and in the modem's;
* `cspCrc32c_pair_iff` : when it misses two changed bits;
* `checkTrailer_changed` : what an unchanged trailer lets through.
-/

namespace SimpleSatOps.Csp
open Polynomial Crc ModemIq

/-- The reflected polynomial of `csp_crc32c`. -/
abbrev crc32cPoly : ℕ := 0x82F63B78

/-- One pass of the inner loop of `csp_crc32c`. -/
def crcBit (crc : UInt32) : UInt32 :=
  let mask := -(crc &&& 1)
  crc >>> 1 ^^^ (0x82F63B78 &&& mask)

def crcByte (crc : UInt32) (b : UInt8) : UInt32 := crcBit^[8] (crc ^^^ b.toUInt32)

/-- `csp_crc32c`. -/
def cspCrc32c (data : List UInt8) : UInt32 := data.foldl crcByte 0xFFFFFFFF ^^^ 0xFFFFFFFF

/-- `crc_le` of the last four bytes. -/
def crcLe (packet : List UInt8) : UInt32 :=
  let plen := packet.length
  (packet.getD (plen - 4) 0).toUInt32 ||| (packet.getD (plen - 3) 0).toUInt32 <<< 8 |||
    (packet.getD (plen - 2) 0).toUInt32 <<< 16 ||| (packet.getD (plen - 1) 0).toUInt32 <<< 24

/-- `crc_be` of the last four bytes. -/
def crcBe (packet : List UInt8) : UInt32 :=
  let plen := packet.length
  (packet.getD (plen - 4) 0).toUInt32 <<< 24 ||| (packet.getD (plen - 3) 0).toUInt32 <<< 16 |||
    (packet.getD (plen - 2) 0).toUInt32 <<< 8 ||| (packet.getD (plen - 1) 0).toUInt32

/-- The trailer check of the window decoder: `crc_status` and the `plen` that is kept. -/
def checkTrailer (packet : List UInt8) : ℤ × ℕ :=
  let plen := packet.length
  if 8 ≤ plen then
    let crcComputed := cspCrc32c (packet.take (plen - 4))
    if crcComputed = crcLe packet ∨ crcComputed = crcBe packet then (1, plen - 4) else (0, plen)
  else (-1, plen)

example : cspCrc32c [0x31, 0x32, 0x33, 0x34, 0x35, 0x36, 0x37, 0x38, 0x39] = 0xE3069283 := by decide +kernel

/-! ## The loop feeds a register -/

/-- The bits of a message as `csp_crc32c` reads them, the lowest of each byte first. -/
def crcBits (data : List UInt8) : List Bool := data.flatMap fun b => lowBits 8 b.toNat

theorem toNat_crcBit (crc : UInt32) : (crcBit crc).toNat = shift crc32cPoly crc.toNat := by
  have hand : (crc &&& 1).toNat = crc.toNat % 2 := by
    rw [UInt32.toNat_and]
    exact Nat.and_one_is_mod _
  have hshift : (crc >>> 1).toNat = crc.toNat / 2 := by
    rw [UInt32.toNat_shiftRight]
    exact Nat.shiftRight_one _
  unfold crcBit shift
  rcases Nat.mod_two_eq_zero_or_one crc.toNat with h | h
  · have hmask : crc &&& 1 = 0 := UInt32.toNat_inj.1 (hand.trans h)
    simp [hmask, h, hshift]
  · have hmask : crc &&& 1 = 1 := UInt32.toNat_inj.1 (hand.trans h)
    have hneg : (0x82F63B78 &&& -1 : UInt32) = 0x82F63B78 := by decide
    change (crc >>> 1 ^^^ (0x82F63B78 &&& -(crc &&& 1))).toNat = _
    rw [hmask, hneg, if_pos h, UInt32.toNat_xor, hshift]
    rfl

theorem toNat_crcByte (crc : UInt32) (b : UInt8) :
    (crcByte crc b).toNat = feedBits crc32cPoly crc.toNat (lowBits 8 b.toNat) := by
  have hiter : ∀ (k : ℕ) (c : UInt32), (crcBit^[k] c).toNat = (shift crc32cPoly)^[k] c.toNat := fun k => by
    induction k with
    | zero => exact fun _ => rfl
    | succ k ih => exact fun c => (ih (crcBit c)).trans (by rw [toNat_crcBit, Function.iterate_succ_apply])
  rw [crcByte, hiter, UInt32.toNat_xor, UInt8.toNat_toUInt32, shift_iterate_xor _ _ _ _ b.toNat_lt]

theorem toNat_foldl_crcByte (data : List UInt8) : ∀ crc : UInt32,
    (data.foldl crcByte crc).toNat = feedBits crc32cPoly crc.toNat (crcBits data) := by
  induction data with
  | nil => exact fun _ => rfl
  | cons b data ih =>
    intro crc
    rw [List.foldl_cons, ih, toNat_crcByte, ← feedBits_append]
    rfl

theorem crc32cPoly_lt : crc32cPoly < 2 ^ 32 := by decide

theorem testBit_crc32cPoly : crc32cPoly.testBit (32 - 1) = true := by decide

theorem length_crcBits (data : List UInt8) : (crcBits data).length = 8 * data.length := by
  rw [crcBits, List.length_flatMap]
  simp [lowBits, Nat.mul_comm]

/-- Equal checksums are equal registers. -/
theorem cspCrc32c_eq_iff (data data' : List UInt8) : cspCrc32c data = cspCrc32c data' ↔
    feedBits crc32cPoly 0xFFFFFFFF (crcBits data) = feedBits crc32cPoly 0xFFFFFFFF (crcBits data') := by
  rw [cspCrc32c, cspCrc32c, UInt32.xor_left_inj, ← UInt32.toNat_inj, toNat_foldl_crcByte, toNat_foldl_crcByte]
  rfl

/-! ## The remainder -/

/-- The polynomial 0x1EDC6F41. -/
noncomputable def castagnoli : (ZMod 2)[X] :=
  X ^ 32 + X ^ 28 + X ^ 27 + X ^ 26 + X ^ 25 + X ^ 23 + X ^ 22 + X ^ 20 + X ^ 19 + X ^ 18 + X ^ 14 + X ^ 13 + X ^ 11
    + X ^ 10 + X ^ 9 + X ^ 8 + X ^ 6 + 1

theorem gen_crc32cPoly : gen 32 crc32cPoly = castagnoli := by
  have hbits : (List.range 32).filter crc32cPoly.testBit
      = [3, 4, 5, 6, 8, 9, 11, 12, 13, 17, 18, 20, 21, 22, 23, 25, 31] := by decide
  rw [gen, refl_eq_sum, hbits, castagnoli]
  simp [← add_assoc]

theorem refl_ones : refl 32 0xFFFFFFFF = ∑ i ∈ Finset.range 32, X ^ i := by
  rw [← Finset.sum_range_reflect]
  refine Finset.sum_congr rfl fun i hi => ?_
  have hbit : ∀ i < 32, Nat.testBit 0xFFFFFFFF i = true := by decide
  rw [hbit i (Finset.mem_range.1 hi), coef, if_pos rfl, C_1, one_mul]

/-- **The checksum is a remainder**: undo the final inversion, and its reflected bits are the message shifted up
by 32 places, its first 32 bits inverted, modulo the Castagnoli polynomial. -/
theorem cspCrc32c_remainder (data : List UInt8) :
    refl 32 (cspCrc32c data ^^^ 0xFFFFFFFF).toNat =
      (X ^ (8 * data.length) * ∑ i ∈ Finset.range 32, X ^ i + X ^ 32 * message (crcBits data)) %ₘ castagnoli := by
  have hcancel : cspCrc32c data ^^^ 0xFFFFFFFF = data.foldl crcByte 0xFFFFFFFF := by
    rw [cspCrc32c, UInt32.xor_assoc, UInt32.xor_self, UInt32.xor_zero]
  rw [hcancel, toNat_foldl_crcByte, ← length_crcBits, ← gen_crc32cPoly, ← refl_ones]
  exact refl_feedBits (by decide) crc32cPoly_lt _ (by decide)

/-! ## Bursts -/

theorem crcBits_append (a b : List UInt8) : crcBits (a ++ b) = crcBits a ++ crcBits b := List.flatMap_append

theorem getElem?_crcBits (data : List UInt8) (i : ℕ) {t : ℕ} (ht : t < 8) :
    (crcBits data)[8 * i + t]? = data[i]?.map fun b => b.toNat.testBit t := by
  rw [crcBits, getElem?_flatMap (fun b => by simp [lowBits]) data ht]
  cases data[i]? <;> simp [lowBits, ht]

theorem getElem?_toBits (data : List UInt8) (i : ℕ) {t : ℕ} (ht : t < 8) :
    (toBits data)[8 * i + t]? = data[i]?.map fun b => b.toNat.testBit (7 - t) := by
  rw [toBits, getElem?_flatMap length_byteBits data ht]
  cases data[i]? <;> simp [byteBits, ht]

/-- A byte is its eight bits. -/
theorem byte_ext {a b : UInt8} (h : ∀ t < 8, a.toNat.testBit t = b.toNat.testBit t) : a = b := by
  refine UInt8.toNat_inj.1 (Nat.eq_of_testBit_eq fun t => ?_)
  by_cases ht : t < 8
  · exact h t ht
  · have hle : 2 ^ 8 ≤ 2 ^ t := Nat.pow_le_pow_right two_pos (by omega)
    rw [Nat.testBit_lt_two_pow (a.toNat_lt.trans_le hle), Nat.testBit_lt_two_pow (b.toNat_lt.trans_le hle)]

theorem crcBits_injective : Function.Injective crcBits := by
  intro a b h
  refine List.ext_getElem? fun i => ?_
  have hbit : ∀ t < 8, (a[i]?.map fun b => b.toNat.testBit t) = b[i]?.map fun b => b.toNat.testBit t := fun t ht => by
    rw [← getElem?_crcBits a i ht, ← getElem?_crcBits b i ht, h]
  cases ha : a[i]? with
  | none =>
    have := hbit 0 (by decide)
    rw [ha] at this
    cases hb : b[i]? with
    | none => rfl
    | some y => simp [hb] at this
  | some x =>
    cases hb : b[i]? with
    | none =>
      have := hbit 0 (by decide)
      simp [ha, hb] at this
    | some y =>
      refine congrArg some (byte_ext fun t ht => ?_)
      simpa [ha, hb] using hbit t ht

/-- The bytes that a change of the checksum's bits touches do not matter for the rest. -/
theorem cspCrc32c_inner (pre post : List UInt8) {u v : List UInt8} (hlen : u.length = v.length) :
    cspCrc32c (pre ++ u ++ post) = cspCrc32c (pre ++ v ++ post) ↔
      feedBits crc32cPoly 0 (crcBits u) = feedBits crc32cPoly 0 (crcBits v) := by
  have hbits : (crcBits u).length = (crcBits v).length := by rw [length_crcBits, length_crcBits, hlen]
  have hshort := feedBits_inner (by decide) testBit_crc32cPoly crc32cPoly_lt [] [] hbits (Nat.two_pow_pos 32)
  rw [List.nil_append, List.append_nil, List.nil_append, List.append_nil] at hshort
  rw [cspCrc32c_eq_iff, hshort]
  simp only [crcBits_append]
  exact feedBits_inner (by decide) testBit_crc32cPoly crc32cPoly_lt _ _ hbits (by decide)

/-- **Bursts of up to 32 bits change the checksum**, in the order in which it reads the bits. -/
theorem cspCrc32c_burst {data data' : List UInt8} (hne : data ≠ data') (h : Burst 32 (crcBits data) (crcBits data')) :
    cspCrc32c data ≠ cspCrc32c data' := by
  obtain ⟨pre, u, v, post, hu, hv, hlen, hle⟩ := h.exists_split
  have huv : u ≠ v := by
    rintro rfl
    exact hne (crcBits_injective (hu.trans hv.symm))
  rw [Ne, cspCrc32c_eq_iff, hu, hv]
  exact feedBits_burst (by decide) testBit_crc32cPoly crc32cPoly_lt pre post hlen hle huv (by decide)

/-- Four bytes are a burst. -/
theorem cspCrc32c_word (pre post : List UInt8) {u v : List UInt8} (hlen : u.length = v.length) (hle : u.length ≤ 4)
    (hne : u ≠ v) : cspCrc32c (pre ++ u ++ post) ≠ cspCrc32c (pre ++ v ++ post) := by
  have hbits : (crcBits u).length ≤ 32 := by
    rw [length_crcBits]
    omega
  rw [Ne, cspCrc32c_eq_iff]
  simp only [crcBits_append]
  exact feedBits_burst (by decide) testBit_crc32cPoly crc32cPoly_lt _ _ (by simp only [length_crcBits, hlen]) hbits
    (fun h => hne (crcBits_injective h)) (by decide)

/-- A word in the byte order of the register. -/
def wordLe (a b c d : UInt8) : ℕ := 2 ^ 8 * (2 ^ 8 * (2 ^ 8 * d.toNat + c.toNat) + b.toNat) + a.toNat

theorem wordLe_lt (a b c d : UInt8) : wordLe a b c d < 2 ^ 32 := by
  have := a.toNat_lt
  have := b.toNat_lt
  have := c.toNat_lt
  have := d.toNat_lt
  unfold wordLe
  omega

theorem testBit_wordLe (a b c d : UInt8) (i : ℕ) : (wordLe a b c d).testBit (24 + i) = d.toNat.testBit i := by
  unfold wordLe
  rw [Nat.testBit_two_pow_mul_add _ a.toNat_lt, if_neg (by omega), Nat.testBit_two_pow_mul_add _ b.toNat_lt,
    if_neg (by omega), Nat.testBit_two_pow_mul_add _ c.toNat_lt, if_neg (by omega)]
  congr 1
  omega

theorem crcBits_wordLe (a b c d : UInt8) : crcBits [a, b, c, d] = lowBits 32 (wordLe a b c d) := by
  unfold wordLe
  rw [show 32 = 8 + (8 + (8 + 8)) from rfl, lowBits_add _ _ a.toNat_lt, lowBits_add _ _ b.toNat_lt,
    lowBits_add _ _ c.toNat_lt]
  simp [crcBits]

/-- Five bytes leave a clear difference when the last four cancel what the first does to the register. -/
theorem wordLe_of_feedBits {a a' b b' c c' d d' e e' : UInt8}
    (h : feedBits crc32cPoly 0 (crcBits [a, b, c, d, e]) = feedBits crc32cPoly 0 (crcBits [a', b', c', d', e'])) :
    wordLe b c d e ^^^ wordLe b' c' d' e' = (shift crc32cPoly)^[8] (a.toNat ^^^ a'.toNat) := by
  have hreg : ∀ a b c d e : UInt8, feedBits crc32cPoly 0 (crcBits [a, b, c, d, e])
      = (shift crc32cPoly)^[32] ((shift crc32cPoly)^[8] a.toNat ^^^ wordLe b c d e) := by
    intro a b c d e
    have hsplit : crcBits [a, b, c, d, e] = lowBits 8 a.toNat ++ lowBits 32 (wordLe b c d e) := by
      rw [← crcBits_wordLe]
      rfl
    rw [hsplit, feedBits_append, shift_iterate_xor _ _ _ _ (wordLe_lt b c d e), ← shift_iterate_xor _ _ _ _ a.toNat_lt,
      Nat.zero_xor]
  have hlt : ∀ a : UInt8, (shift crc32cPoly)^[8] a.toNat < 2 ^ 32 := fun a => by
    have := feedBits_lt (by decide) crc32cPoly_lt (lowBits 8 a.toNat) (Nat.two_pow_pos 32)
    rwa [← shift_iterate_xor _ _ _ _ a.toNat_lt, Nat.zero_xor] at this
  rw [hreg, hreg, ← Nat.xor_eq_zero_iff, ← shift_iterate_add] at h
  have hzero := eq_zero_of_shift_iterate (by decide) crc32cPoly_lt testBit_crc32cPoly 32
    (Nat.xor_lt_two_pow (Nat.xor_lt_two_pow (hlt a) (wordLe_lt b c d e))
      (Nat.xor_lt_two_pow (hlt a') (wordLe_lt b' c' d' e'))) h
  rw [xor_xor_xor_comm, ← shift_iterate_add, Nat.xor_eq_zero_iff] at hzero
  exact hzero.symm

/-- What one changed byte does to the register reaches at least 32 places, the first bit of each byte highest. -/
theorem shift_reaches : ∀ (s : Fin 8) (x : Fin 256), x.1 ≠ 0 → x.1 < 2 ^ (8 - s.1) →
    ∃ i : Fin 8, i.1 ≤ 8 - s.1 ∧ ((shift crc32cPoly)^[8] x.1).testBit (24 + i.1) = true := by
  decide +kernel

/-- Five changed bytes, of which the first keeps its `s` high bits and the last all but its `s - 1` high bits. -/
theorem feedBits_five {a a' b b' c c' d d' e e' : UInt8} {s : ℕ} (hs : s < 8) (hne : a ≠ a')
    (hfirst : ∀ t < s, a.toNat.testBit (7 - t) = a'.toNat.testBit (7 - t))
    (hlast : ∀ t < 8, s ≤ t + 1 → e.toNat.testBit (7 - t) = e'.toNat.testBit (7 - t)) :
    feedBits crc32cPoly 0 (crcBits [a, b, c, d, e]) ≠ feedBits crc32cPoly 0 (crcBits [a', b', c', d', e']) := by
  intro h
  have hword := wordLe_of_feedBits h
  have hx : a.toNat ^^^ a'.toNat < 256 := Nat.xor_lt_two_pow (n := 8) a.toNat_lt a'.toNat_lt
  have hx0 : a.toNat ^^^ a'.toNat ≠ 0 := fun h0 => hne (UInt8.toNat_inj.1 (Nat.xor_eq_zero_iff.1 h0))
  have hlow : a.toNat ^^^ a'.toNat < 2 ^ (8 - s) := by
    refine Nat.lt_pow_two_of_testBit _ fun i hi => ?_
    by_cases h8 : i < 8
    · have := hfirst (7 - i) (by omega)
      rw [show 7 - (7 - i) = i by omega] at this
      rw [Nat.testBit_xor, this, Bool.xor_self]
    · exact Nat.testBit_lt_two_pow (hx.trans_le (Nat.pow_le_pow_right (n := 2) two_pos (by omega : 8 ≤ i)))
  obtain ⟨⟨i, hi⟩, hle, hset⟩ := shift_reaches ⟨s, hs⟩ ⟨_, hx⟩ hx0 hlow
  have hsame := hlast (7 - i) (by omega) (by simp only at hle; omega)
  rw [show 7 - (7 - i) = i by omega] at hsame
  rw [← hword, Nat.testBit_xor, testBit_wordLe, testBit_wordLe, hsame, Bool.xor_self] at hset
  exact absurd hset (by decide)

section
variable {data data' : List UInt8} {k : ℕ} (hlen : data.length = data'.length)
  (hk : ∀ i ∈ diffs (toBits data) (toBits data'), k ≤ i ∧ i < k + 31)

include hlen hk in
/-- The bits outside a burst agree, byte by byte. -/
theorem testBit_of_airBurst {i t : ℕ} (ht : t < 8) (hout : 8 * i + t < k ∨ k + 31 ≤ 8 * i + t) :
    (data[i]?.map fun b => b.toNat.testBit (7 - t)) = data'[i]?.map fun b => b.toNat.testBit (7 - t) := by
  have hbits : (toBits data).length = (toBits data').length := by
    simp only [toBits, List.length_flatMap, length_byteBits, hlen, List.map_const', List.sum_replicate]
  rw [← getElem?_toBits _ _ ht, ← getElem?_toBits _ _ ht]
  refine getElem?_eq_of_not_mem_diffs hbits fun hmem => ?_
  have := hk _ hmem
  omega

include hlen hk in
/-- A change of 31 places stays inside five bytes. -/
theorem bytes_of_airBurst : ∀ i ∈ diffs data data', k / 8 ≤ i ∧ i < k / 8 + 5 := by
  intro i hi
  obtain ⟨hlt, hne⟩ := mem_diffs.1 hi
  by_contra hout
  refine hne ?_
  rw [List.getElem?_eq_getElem hlt, List.getElem?_eq_getElem (hlen ▸ hlt)]
  refine congrArg some (byte_ext fun t ht => ?_)
  have hbit := testBit_of_airBurst hlen hk (i := i) (t := 7 - t) (by omega) (by omega)
  rw [List.getElem?_eq_getElem hlt, List.getElem?_eq_getElem (hlen ▸ hlt), show 7 - (7 - t) = t by omega] at hbit
  simpa using hbit

include hlen hk in
theorem cspCrc32c_of_airBurst (hne : data ≠ data') : cspCrc32c data ≠ cspCrc32c data' := by
  obtain ⟨hu, hv⟩ := split_of_diffs hlen (bytes_of_airBurst hlen hk)
  have hpre : k / 8 ≤ data.length → (data.take (k / 8)).length = k / 8 := fun h => by
    rw [List.length_take, Nat.min_eq_left h]
  have huvlen : ((data.drop (k / 8)).take 5).length = ((data'.drop (k / 8)).take 5).length := by simp [hlen]
  have hfive : ((data.drop (k / 8)).take 5).length = min 5 (data.length - k / 8) := by simp
  have huv : (data.drop (k / 8)).take 5 ≠ (data'.drop (k / 8)).take 5 := fun h => hne (hu.trans (h ▸ hv.symm))
  have hfirst := fun t ht hout => testBit_of_airBurst hlen hk (i := k / 8) (t := t) ht hout
  have hlast := fun t ht hout => testBit_of_airBurst hlen hk (i := k / 8 + 4) (t := t) ht hout
  generalize data.take (k / 8) = pre at hu hv hpre
  generalize (data.drop (k / 8)).take 5 = u at hu huv huvlen hfive
  generalize (data'.drop (k / 8)).take 5 = v at hv huv huvlen
  generalize data.drop (k / 8 + 5) = post at hu hv
  rcases Nat.lt_or_ge u.length 5 with hshort | hlong
  · rw [hu, hv]
    exact cspCrc32c_word pre post huvlen (by omega) huv
  replace hpre := hpre (by omega)
  replace hfive : u.length = 5 := by omega
  match u, v, huvlen, hfive with
  | [a, b, c, d, e], [a', b', c', d', e'], _, _ =>
    rw [hu, hv]
    by_cases ha : a = a'
    · subst ha
      have hmove : ∀ w : List UInt8, pre ++ a :: w ++ post = (pre ++ [a]) ++ w ++ post := fun w => by simp
      rw [hmove, hmove]
      exact cspCrc32c_word _ _ rfl le_rfl fun h => huv (by rw [h])
    · rw [Ne, cspCrc32c_inner pre post (u := [a, b, c, d, e]) (v := [a', b', c', d', e']) rfl]
      have hget : ∀ w : List UInt8, w.length = 5 → ∀ i < 5, (pre ++ w ++ post)[k / 8 + i]? = w[i]? := by
        intro w hw i hi
        rw [List.append_assoc, List.getElem?_append_right (by omega), hpre, Nat.add_sub_cancel_left,
          List.getElem?_append_left (by omega)]
      refine feedBits_five (s := k % 8) (Nat.mod_lt _ (by decide)) ha (fun t ht => ?_) fun t ht hout => ?_
      · have h := hfirst t (by omega) (by omega)
        rw [hu, hv, ← Nat.add_zero (k / 8), hget _ rfl 0 (by decide), hget _ rfl 0 (by decide)] at h
        simpa using h
      · have h := hlast t ht (by omega)
        rw [hu, hv, hget _ rfl 4 (by decide), hget _ rfl 4 (by decide)] at h
        simpa using h
end

/-- **Bursts of up to 31 bits on the air change the checksum**, the highest bit of each byte first. -/
theorem cspCrc32c_airBurst {data data' : List UInt8} (hlen : data.length = data'.length) (hne : data ≠ data')
    (h : Burst 31 (toBits data) (toBits data')) : cspCrc32c data ≠ cspCrc32c data' :=
  have ⟨_, _, hk⟩ := h
  cspCrc32c_of_airBurst hlen hk hne

/-! ## Two bits -/

/-- The order of `x` modulo the Castagnoli polynomial. -/
theorem orderOf_castagnoli : orderOf (AdjoinRoot.root (gen 32 crc32cPoly)) = 2 ^ 31 - 1 := by
  refine orderOf_root (by decide) crc32cPoly_lt testBit_crc32cPoly ?_ (by decide +kernel)
  exact lucas_lehmer_sufficiency 31 (by norm_num) (by norm_num)

/-- **Two changed bits** keep the checksum exactly when their distance is a multiple of `2 ^ 31 - 1`. -/
theorem cspCrc32c_pair_iff {data data' : List UInt8} (hlen : data.length = data'.length) {i j : ℕ} (hij : i < j)
    (hd : diffs (crcBits data) (crcBits data') = {i, j}) :
    cspCrc32c data = cspCrc32c data' ↔ 2 ^ 31 - 1 ∣ j - i := by
  have hbits : (crcBits data).length = (crcBits data').length := by rw [length_crcBits, length_crcBits, hlen]
  obtain ⟨pre, c, mid, d, post, hu, hv, hdist⟩ := split_of_pair hbits hij hd
  rw [cspCrc32c_eq_iff, hu, hv,
    feedBits_pair_iff (by decide) testBit_crc32cPoly crc32cPoly_lt pre mid post c d (by decide), orderOf_castagnoli,
    hdist]

/-! ## The trailer -/

/-- The four bytes of a word the other way round. -/
def byteSwap (x : UInt32) : UInt32 :=
  UInt32.ofNat (wordLe (x >>> 24).toUInt8 (x >>> 16).toUInt8 (x >>> 8).toUInt8 x.toUInt8)

theorem byteSwap_eq {x y : UInt32} {a b c d : UInt8} (hx : x.toNat = wordLe a b c d) (hy : y.toNat = wordLe d c b a) :
    byteSwap x = y := by
  have ha := a.toNat_lt
  have hb := b.toNat_lt
  have hc := c.toNat_lt
  have hd := d.toNat_lt
  have hbyte : ∀ {n : UInt32} {e : UInt8} (k : ℕ), n.toNat % 32 = k → x.toNat / 2 ^ k % 2 ^ 8 = e.toNat →
      (x >>> n).toUInt8 = e := fun k hk h => by
    rw [← UInt8.toNat_inj, UInt32.toNat_toUInt8, UInt32.toNat_shiftRight, hk, Nat.shiftRight_eq_div_pow, h]
  unfold wordLe at hx
  have h0 : x.toUInt8 = a := UInt8.toNat_inj.1 (by rw [UInt32.toNat_toUInt8]; omega)
  rw [byteSwap, h0, hbyte 24 rfl (by omega : _ = d.toNat), hbyte 16 rfl (by omega : _ = c.toNat),
    hbyte 8 rfl (by omega : _ = b.toNat), ← hy, UInt32.ofNat_toNat]

theorem toNat_be (a b c d : UInt8) :
    (a.toUInt32 <<< 24 ||| b.toUInt32 <<< 16 ||| c.toUInt32 <<< 8 ||| d.toUInt32).toNat = wordLe d c b a := by
  have ha := a.toNat_lt
  have hb := b.toNat_lt
  have hc := c.toNat_lt
  have hd := d.toNat_lt
  have hshift : ∀ (e : UInt8) {n : UInt32} (k : ℕ), n.toNat % 32 = k → k ≤ 24 →
      (e.toUInt32 <<< n).toNat = e.toNat <<< k := fun e n k hk hle => by
    have hlt : e.toNat * 2 ^ k < 2 ^ 32 := calc
      e.toNat * 2 ^ k < 2 ^ 8 * 2 ^ k := Nat.mul_lt_mul_of_pos_right e.toNat_lt (Nat.two_pow_pos k)
      _ ≤ 2 ^ 8 * 2 ^ 24 := Nat.mul_le_mul_left _ (Nat.pow_le_pow_right two_pos hle)
    rw [UInt32.toNat_shiftLeft, hk, UInt8.toNat_toUInt32, Nat.shiftLeft_eq, Nat.mod_eq_of_lt hlt]
  rw [UInt32.toNat_or, UInt32.toNat_or, UInt32.toNat_or, hshift a 24 rfl (by decide), hshift b 16 rfl (by decide),
    hshift c 8 rfl (by decide), UInt8.toNat_toUInt32, be32_eq hb hc hd]
  unfold wordLe
  omega

theorem toNat_crcBe (data : List UInt8) (a b c d : UInt8) : (crcBe (data ++ [a, b, c, d])).toNat = wordLe d c b a := by
  rw [← toNat_be]
  simp [crcBe]

theorem toNat_crcLe (data : List UInt8) (a b c d : UInt8) : (crcLe (data ++ [a, b, c, d])).toNat = wordLe a b c d := by
  rw [← toNat_be]
  have hswap : ∀ a b c d : UInt32, a ||| b ||| c ||| d = d ||| c ||| b ||| a := fun a b c d => by
    rw [UInt32.or_comm (a ||| b ||| c), UInt32.or_comm (a ||| b), UInt32.or_comm a, ← UInt32.or_assoc,
      ← UInt32.or_assoc]
  rw [← hswap]
  simp [crcLe]

/-- The check of a packet with a trailer. -/
theorem checkTrailer_append (data : List UInt8) (hlen : 4 ≤ data.length) (a b c d : UInt8) :
    (checkTrailer (data ++ [a, b, c, d])).1 = 1 ↔
      cspCrc32c data = crcLe [a, b, c, d] ∨ cspCrc32c data = crcBe [a, b, c, d] := by
  have hle : crcLe (data ++ [a, b, c, d]) = crcLe [a, b, c, d] :=
    UInt32.toNat_inj.1 ((toNat_crcLe data a b c d).trans (toNat_crcLe [] a b c d).symm)
  have hbe : crcBe (data ++ [a, b, c, d]) = crcBe [a, b, c, d] :=
    UInt32.toNat_inj.1 ((toNat_crcBe data a b c d).trans (toNat_crcBe [] a b c d).symm)
  have htake : (data ++ [a, b, c, d]).take ((data ++ [a, b, c, d]).length - 4) = data := by
    rw [List.length_append, List.length_cons, List.length_cons, List.length_cons, List.length_singleton]
    exact List.take_left' rfl
  have h8 : 8 ≤ (data ++ [a, b, c, d]).length := by simpa using hlen
  simp only [checkTrailer, if_pos h8, htake, hle, hbe]
  split_ifs with h
  · simpa using h
  · simpa using h

/-- **An unchanged trailer** lets a message with another checksum through exactly when that is the old one with its
bytes swapped: both byte orders are accepted. -/
theorem checkTrailer_changed {data data' trailer : List UInt8} (htr : trailer.length = 4)
    (hlen : data.length = data'.length) (hne : cspCrc32c data ≠ cspCrc32c data')
    (hok : (checkTrailer (data ++ trailer)).1 = 1) :
    (checkTrailer (data' ++ trailer)).1 = 1 ↔ cspCrc32c data' = byteSwap (cspCrc32c data) := by
  have h4 : 4 ≤ data.length := by
    by_contra hshort
    have h8 : ¬ 8 ≤ (data ++ trailer).length := by
      rw [List.length_append]
      omega
    simp only [checkTrailer, if_neg h8] at hok
    exact absurd hok (by decide)
  match trailer, htr with
  | [a, b, c, d], _ =>
    have hswap : byteSwap (crcLe [a, b, c, d]) = crcBe [a, b, c, d] :=
      byteSwap_eq (toNat_crcLe [] a b c d) (toNat_crcBe [] a b c d)
    have hswap' : byteSwap (crcBe [a, b, c, d]) = crcLe [a, b, c, d] :=
      byteSwap_eq (toNat_crcBe [] a b c d) (toNat_crcLe [] a b c d)
    rw [checkTrailer_append data h4] at hok
    rw [checkTrailer_append data' (hlen ▸ h4)]
    rcases hok with hle | hbe
    · rw [hle] at hne ⊢
      rw [hswap]
      exact or_iff_right (Ne.symm hne)
    · rw [hbe] at hne ⊢
      rw [hswap']
      exact or_iff_left (Ne.symm hne)

/-! ## What the checksum promises -/

/-- **The checksum is the CRC-32C remainder and sees small changes**: bursts of 32 bits in the order in which it reads
the bits, bursts of 31 bits in the order in which the modem sends them, and two bits unless they are a multiple of
`2 ^ 31 - 1` apart; against its unchanged trailer such a message passes only with the checksum's bytes swapped. -/
theorem cspCrc32c_detects :
    (∀ data, refl 32 (cspCrc32c data ^^^ 0xFFFFFFFF).toNat =
      (X ^ (8 * data.length) * ∑ i ∈ Finset.range 32, X ^ i + X ^ 32 * message (crcBits data)) %ₘ castagnoli) ∧
    (∀ data data', data ≠ data' → Burst 32 (crcBits data) (crcBits data') → cspCrc32c data ≠ cspCrc32c data') ∧
    (∀ data data', data ≠ data' → Burst 31 (toBits data) (toBits data') → cspCrc32c data ≠ cspCrc32c data') ∧
    (∀ data data' i j, data.length = data'.length → i < j → diffs (crcBits data) (crcBits data') = {i, j} →
      (cspCrc32c data = cspCrc32c data' ↔ 2 ^ 31 - 1 ∣ j - i)) ∧
    (∀ data data' trailer, trailer.length = 4 → data.length = data'.length → cspCrc32c data ≠ cspCrc32c data' →
      (checkTrailer (data ++ trailer)).1 = 1 →
      ((checkTrailer (data' ++ trailer)).1 = 1 ↔ cspCrc32c data' = byteSwap (cspCrc32c data))) := by
  refine ⟨cspCrc32c_remainder, fun _ _ => cspCrc32c_burst, fun data data' hne h => ?_,
    fun _ _ _ _ hlen hij hd => cspCrc32c_pair_iff hlen hij hd, fun _ _ _ htr hlen hne hok =>
      checkTrailer_changed htr hlen hne hok⟩
  have hlen : data.length = data'.length := by
    have := h.1
    simp only [toBits, List.length_flatMap, length_byteBits, List.map_const', List.sum_replicate, smul_eq_mul] at this
    omega
  exact cspCrc32c_airBurst hlen hne h

theorem cspCrc32c_detects_zeros :
    cspCrc32c [0, 0, 0, 0] ≠ cspCrc32c [0x04, 0xB1, 0x32, 0x6C] ∧ cspCrc32c [0, 0, 0] ≠ cspCrc32c [0x01, 0x03, 0x83] ∧
      (cspCrc32c [0, 0] = cspCrc32c [1, 1] ↔ 2 ^ 31 - 1 ∣ 8 - 0) ∧
      ((checkTrailer ([0x04, 0xB1, 0x32, 0x6C] ++ [0xC7, 0x4B, 0x67, 0x48])).1 = 1 ↔
        cspCrc32c [0x04, 0xB1, 0x32, 0x6C] = byteSwap (cspCrc32c [0, 0, 0, 0])) := by
  obtain ⟨-, hburst, hair, hpair, htrailer⟩ := cspCrc32c_detects
  exact ⟨hburst _ _ (by decide) ⟨by decide, 0, by decide +kernel⟩,
    hair _ _ (by decide) ⟨by decide, 0, by decide +kernel⟩,
    hpair [0, 0] [1, 1] 0 8 rfl (by decide) (by decide +kernel),
    htrailer [0, 0, 0, 0] _ _ rfl rfl (by decide +kernel) (by decide +kernel)⟩

/-- Two messages of five bytes that differ in 32 successive bits of the air have one checksum; two of four bytes pass
the check with one trailer. -/
theorem cspCrc32c_misses :
    (¬ ∀ data data', data ≠ data' → Burst 32 (toBits data) (toBits data') → cspCrc32c data ≠ cspCrc32c data') ∧
    ¬ ∀ data data' trailer, trailer.length = 4 → data ≠ data' → Burst 32 (toBits data) (toBits data') →
      (checkTrailer (data ++ trailer)).1 = 1 → (checkTrailer (data' ++ trailer)).1 ≠ 1 := by
  refine ⟨fun h => ?_, fun h => ?_⟩
  · refine h [0, 0, 0, 0, 0] [0x01, 0x03, 0x83, 0x6B, 0xF2] (by decide) ⟨by decide, 7, ?_⟩ (by decide +kernel)
    decide +kernel
  · refine h [0, 0, 0, 0] [0x04, 0xB1, 0x32, 0x6C] [0xC7, 0x4B, 0x67, 0x48] rfl (by decide) ⟨by decide, 0, ?_⟩
      (by decide +kernel) (by decide +kernel)
    decide +kernel

end SimpleSatOps.Csp
