import SimpleSatOps.Dsp.AsmSearch

/-!
# Slicing the strobes (`modem_iq_to_bits`, `modem_bits_to_bytes`)

The demodulator is a fixed sequence of strobe values; what is modelled is the slicer and the search at its end.

* `slicer`, `modemIqToBits` : the bits of one polarity, the first polarity with a match;
* `modemBitsToBytes`, `toBits` : packing, and its inverse;
* `Candidate` : the offsets within the tolerance;
* `modemIqToBits_spec` : which of them is returned.
-/

namespace SimpleSatOps.ModemIq
open AsmSearch FirstMin

/-- A strobe is sliced at zero. -/
def sliceBit (invert : Bool) (strobe : ℤ) : Bool := if invert then strobe < 0 else 0 < strobe

/-- `tmp_bits`. -/
def slicer (invert : Bool) (strobes : List ℤ) : List Bool := strobes.map (sliceBit invert)

/-- The outputs of `modem_iq_to_bits`; `polarityUsed` is set when the inverted bits matched. -/
structure Synced where
  outBits : List Bool
  syncBitOffset : ℕ
  polarityUsed : Bool

/-- One pass of the polarity loop. -/
def searchPolarity (strobes : List ℤ) (syncMaxHam minBitOffset : ℕ) (invert : Bool) : Option Synced :=
  let tmpBits := slicer invert strobes
  match (asmFindBest tmpBits asmBigEndianU32 syncMaxHam minBitOffset).2 with
  | none => none
  | some off => some ⟨tmpBits.drop off, off, invert⟩

/-- The end of `modem_iq_to_bits`: both polarities in order, up to the first match. -/
def modemIqToBits (strobes : List ℤ) (invertPolarity : Bool) (syncMaxHam minBitOffset : ℕ) : Option Synced :=
  [invertPolarity, !invertPolarity].findSome? (searchPolarity strobes syncMaxHam minBitOffset)

/-- The inner loop of `modem_bits_to_bytes`. -/
def packByte (bit : ℕ → Bool) : UInt8 := (List.range 8).foldl (fun b k => b <<< 1 ||| UInt8.ofNat (bit k).toNat) 0

/-- `modem_bits_to_bytes`: first bit highest, zeros behind the last bit. -/
def modemBitsToBytes (bits : List Bool) : List UInt8 :=
  tab ((bits.length + 7) / 8) fun i => packByte fun k => bits.getD (i * 8 + k) false

/-! ## Candidates -/

section Candidates
variable (strobes : List ℤ) (syncMaxHam : ℕ)

/-- The distance of the word at `off` from the sync word, in one polarity. -/
def syncDist (invert : Bool) (off : ℕ) : ℕ := asmDist (slicer invert strobes) asmBigEndianU32 off

/-- The offset is within the tolerance. -/
abbrev Candidate (invert : Bool) (off : ℕ) : Prop := syncDist strobes invert off ≤ syncMaxHam

/-- What one polarity returns when the search chose `choice`. -/
def synced (invert : Bool) (choice : Option ℕ) : Option Synced :=
  choice.map fun off => ⟨(slicer invert strobes).drop off, off, invert⟩

theorem searchPolarity_spec (minBitOffset : ℕ) (invert : Bool) : ∃ choice,
    Best (syncDist strobes invert) (Candidate strobes syncMaxHam invert) minBitOffset (strobes.length - 31) choice ∧
      searchPolarity strobes syncMaxHam minBitOffset invert = synced strobes invert choice := by
  obtain ⟨choice, hbest, hfind⟩ := asmFindBest_spec (slicer invert strobes) asmBigEndianU32 syncMaxHam minBitOffset
  unfold slicer at hbest
  rw [List.length_map] at hbest
  refine ⟨choice, hbest, ?_⟩
  unfold searchPolarity
  dsimp only
  rw [hfind]
  cases choice <;> rfl

/-- **Which candidate is returned**: the best one of the first polarity that has any. -/
theorem modemIqToBits_spec (minBitOffset : ℕ) : ∃ normal inverted,
    Best (syncDist strobes false) (Candidate strobes syncMaxHam false) minBitOffset (strobes.length - 31) normal ∧
      Best (syncDist strobes true) (Candidate strobes syncMaxHam true) minBitOffset (strobes.length - 31) inverted ∧
        modemIqToBits strobes false syncMaxHam minBitOffset =
          (synced strobes false normal).or (synced strobes true inverted) := by
  obtain ⟨normal, hnormal, hsearch⟩ := searchPolarity_spec strobes syncMaxHam minBitOffset false
  obtain ⟨inverted, hinverted, hsearch'⟩ := searchPolarity_spec strobes syncMaxHam minBitOffset true
  refine ⟨normal, inverted, hnormal, hinverted, ?_⟩
  unfold modemIqToBits
  rw [List.findSome?_cons, hsearch]
  cases normal with
  | none =>
    change [true].findSome? _ = synced strobes true inverted
    rw [List.findSome?_cons, hsearch']
    cases inverted <;> rfl
  | some off => rfl

end Candidates

/-! ## Bytes as bits -/

/-- The bits of a byte, first bit highest. -/
def byteBits (b : UInt8) : List Bool := (List.range 8).map fun k => b.toNat.testBit (7 - k)

def toBits (bytes : List UInt8) : List Bool := bytes.flatMap byteBits

theorem length_byteBits (b : UInt8) : (byteBits b).length = 8 := rfl

theorem toBits_append (xs ys : List UInt8) : toBits (xs ++ ys) = toBits xs ++ toBits ys := List.flatMap_append

theorem packByte_congr {f g : ℕ → Bool} (h : ∀ k < 8, f k = g k) : packByte f = packByte g := by
  unfold packByte
  apply List.foldl_ext
  intro b k hk
  rw [h k (List.mem_range.mp hk)]

theorem packByte_byteBits (b : UInt8) : packByte (fun k => (byteBits b).getD k false) = b := by
  have hall : ∀ n : Fin 256, packByte (fun k => (byteBits (UInt8.ofNat n.1)).getD k false) = UInt8.ofNat n.1 := by
    decide +kernel
  have hb := hall ⟨b.toNat, b.toNat_lt⟩
  rwa [UInt8.ofNat_toNat] at hb

theorem modemBitsToBytes_cons (b : UInt8) (bits : List Bool) :
    modemBitsToBytes (byteBits b ++ bits) = b :: modemBitsToBytes bits := by
  have hlen : ((byteBits b ++ bits).length + 7) / 8 = (bits.length + 7) / 8 + 1 := by
    rw [List.length_append, length_byteBits]
    omega
  have hfirst : packByte (fun k => (byteBits b ++ bits).getD (0 * 8 + k) false) = b := by
    refine Eq.trans (packByte_congr fun k hk => ?_) (packByte_byteBits b)
    rw [Nat.zero_mul, Nat.zero_add, List.getD_append _ _ _ _ (by rwa [length_byteBits])]
  have hrest : ∀ i k, (byteBits b ++ bits).getD ((i + 1) * 8 + k) false = bits.getD (i * 8 + k) false := by
    intro i k
    rw [List.getD_append_right _ _ _ _ (by rw [length_byteBits]; omega), length_byteBits]
    congr 1
    omega
  unfold modemBitsToBytes
  rw [hlen, tab_succ, hfirst]
  simp only [hrest]

/-- Packing undoes spreading. -/
theorem modemBitsToBytes_toBits (bytes : List UInt8) (bits : List Bool) :
    modemBitsToBytes (toBits bytes ++ bits) = bytes ++ modemBitsToBytes bits := by
  induction bytes with
  | nil => rfl
  | cons b bytes ih =>
    have hsplit : toBits (b :: bytes) ++ bits = byteBits b ++ (toBits bytes ++ bits) := by
      unfold toBits
      rw [List.flatMap_cons, List.append_assoc]
    rw [hsplit, modemBitsToBytes_cons, ih]
    rfl

/-- Any eight bits are the bits of a byte. -/
theorem byteBits_packByte (a b c d e f g h : Bool) :
    byteBits (packByte fun k => [a, b, c, d, e, f, g, h].getD k false) = [a, b, c, d, e, f, g, h] := by
  revert a b c d e f g h
  decide +kernel

theorem exists_toBits (n : ℕ) : ∀ bits : List Bool, bits.length = 8 * n →
    ∃ bytes : List UInt8, bytes.length = n ∧ toBits bytes = bits := by
  induction n with
  | zero =>
    intro bits hlen
    exact ⟨[], rfl, (List.eq_nil_of_length_eq_zero hlen).symm⟩
  | succ n ih =>
    intro bits hlen
    match bits, hlen with
    | a :: b :: c :: d :: e :: f :: g :: h :: rest, hlen =>
      simp only [List.length_cons] at hlen
      obtain ⟨bytes, hbytes, hrest⟩ := ih rest (by omega)
      refine ⟨packByte (fun k => [a, b, c, d, e, f, g, h].getD k false) :: bytes, by rw [List.length_cons, hbytes], ?_⟩
      unfold toBits at hrest ⊢
      rw [List.flatMap_cons, hrest, byteBits_packByte]
      rfl

/-- The bits of the sync word. -/
def asmBits : List Bool := toBits [0x93, 0x0B, 0x51, 0xDE]

theorem ofBits_asmBits : ofBits asmBits = asmBigEndianU32 := by decide

/-- A sync word with flipped bits is as far away as it has flips. -/
theorem syncDist_of_flips {strobes : List ℤ} {invert : Bool} {off : ℕ} {flips : List Bool} (h32 : flips.length = 32)
    (h : slice (slicer invert strobes) off 32 = List.zipWith xor flips asmBits) :
    syncDist strobes invert off = flips.count true := by
  unfold syncDist asmDist
  rw [wordAt_eq, h, ofBits_zipWith_xor flips asmBits h32, ofBits_asmBits, Nat.xor_assoc, Nat.xor_self, Nat.xor_zero,
    ← popcount_ofBits, h32]

theorem zipWith_xor_false {bits : List Bool} : List.zipWith xor (List.replicate bits.length false) bits = bits := by
  induction bits with
  | nil => rfl
  | cons bit bits ih =>
    rw [List.length_cons, List.replicate_succ, List.zipWith_cons_cons, ih, Bool.false_xor]

theorem syncDist_of_exact {strobes : List ℤ} {invert : Bool} {off : ℕ}
    (h : slice (slicer invert strobes) off 32 = asmBits) : syncDist strobes invert off = 0 := by
  have hflips := @zipWith_xor_false asmBits
  rw [← hflips] at h
  exact (syncDist_of_flips rfl h).trans (by decide)

end SimpleSatOps.ModemIq
