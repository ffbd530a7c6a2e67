import SimpleSatOps.Basic

/-!
# Numbers in bytes, the lowest first

* `littleEndian` : the number in bytes;
* `leBytes` : the bytes of a number;
* `littleEndian_leBytes`, `leBytes_littleEndian` : one is the inverse of the other.
-/

namespace SimpleSatOps

/-- The number in bytes, the lowest first. -/
def littleEndian (bytes : List UInt8) : ℕ := bytes.foldr (fun b n => b.toNat + 256 * n) 0

/-- The lowest `k` bytes of a number. -/
def leBytes : ℕ → ℕ → List UInt8
  | 0, _ => []
  | k + 1, n => UInt8.ofNat n :: leBytes k (n / 256)

@[simp] theorem length_leBytes (k n : ℕ) : (leBytes k n).length = k := by
  induction k generalizing n with
  | zero => rfl
  | succ k ih => rw [leBytes, List.length_cons, ih]

theorem littleEndian_cons (b : UInt8) (bytes : List UInt8) :
    littleEndian (b :: bytes) = b.toNat + 256 * littleEndian bytes := rfl

theorem littleEndian_lt (bytes : List UInt8) : littleEndian bytes < 256 ^ bytes.length := by
  induction bytes with
  | nil => exact Nat.one_pos
  | cons b bytes ih =>
      have hb := b.toNat_lt
      rw [littleEndian_cons, List.length_cons, Nat.pow_succ]
      omega

theorem littleEndian_leBytes {k n : ℕ} (h : n < 256 ^ k) : littleEndian (leBytes k n) = n := by
  induction k generalizing n with
  | zero => exact (Nat.lt_one_iff.mp h).symm
  | succ k ih =>
      have hdiv : n / 256 < 256 ^ k := by
        rw [Nat.pow_succ] at h
        omega
      rw [leBytes, littleEndian_cons, ih hdiv, UInt8.toNat_ofNat']
      omega

theorem leBytes_littleEndian (bytes : List UInt8) : leBytes bytes.length (littleEndian bytes) = bytes := by
  induction bytes with
  | nil => rfl
  | cons b bytes ih =>
      have hb := b.toNat_lt
      have hlow : UInt8.ofNat (b.toNat + 256 * littleEndian bytes) = b := by
        apply UInt8.toNat_inj.mp
        rw [UInt8.toNat_ofNat']
        omega
      have hhigh : (b.toNat + 256 * littleEndian bytes) / 256 = littleEndian bytes := by omega
      rw [List.length_cons, littleEndian_cons, leBytes, hlow, hhigh, ih]

end SimpleSatOps
