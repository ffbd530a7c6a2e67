import Mathlib.Algebra.Field.MinimalAxioms
import Mathlib.Algebra.CharP.Two
import Mathlib.Tactic

/-!
# The byte field of the Reed-Solomon codec

`alphaTo` and `indexOf` are the exponential and logarithm tables of `rs.c`: `alphaTo i` is `α ^ i` in
GF(256) with `p(x) = x^8 + x^7 + x^2 + x + 1`, `indexOf 0` is the sentinel `a0`. `GF256` is the field they
describe: bytes with XOR as addition and the table product.

* `alphaTo_indexOf`, `indexOf_alphaTo` : the tables are inverse to each other;
* `xtime` : multiplication by `α` as a shift, which gives distributivity;
* `mk_alphaTo_modnn` : the byte `ALPHA_TO[modnn(e)]` is `α ^ e`;
* `ofIdx` : a byte read back from index form (`a0` is zero).
-/

namespace SimpleSatOps.Rs

/-- Codeword length `NN` (`RS_N`). -/
abbrev nn : ℕ := 255

/-- The index-form sentinel for zero. -/
abbrev a0 : ℕ := nn

/-- `ALPHA_TO`: `α^i` for `i = 0..254`, and `0` at the sentinel `255`. -/
def alphaToTable : List UInt8 :=
  [0x01, 0x02, 0x04, 0x08, 0x10, 0x20, 0x40, 0x80, 0x87, 0x89, 0x95, 0xad, 0xdd, 0x3d, 0x7a, 0xf4,
   0x6f, 0xde, 0x3b, 0x76, 0xec, 0x5f, 0xbe, 0xfb, 0x71, 0xe2, 0x43, 0x86, 0x8b, 0x91, 0xa5, 0xcd,
   0x1d, 0x3a, 0x74, 0xe8, 0x57, 0xae, 0xdb, 0x31, 0x62, 0xc4, 0x0f, 0x1e, 0x3c, 0x78, 0xf0, 0x67,
   0xce, 0x1b, 0x36, 0x6c, 0xd8, 0x37, 0x6e, 0xdc, 0x3f, 0x7e, 0xfc, 0x7f, 0xfe, 0x7b, 0xf6, 0x6b,
   0xd6, 0x2b, 0x56, 0xac, 0xdf, 0x39, 0x72, 0xe4, 0x4f, 0x9e, 0xbb, 0xf1, 0x65, 0xca, 0x13, 0x26,
   0x4c, 0x98, 0xb7, 0xe9, 0x55, 0xaa, 0xd3, 0x21, 0x42, 0x84, 0x8f, 0x99, 0xb5, 0xed, 0x5d, 0xba,
   0xf3, 0x61, 0xc2, 0x03, 0x06, 0x0c, 0x18, 0x30, 0x60, 0xc0, 0x07, 0x0e, 0x1c, 0x38, 0x70, 0xe0,
   0x47, 0x8e, 0x9b, 0xb1, 0xe5, 0x4d, 0x9a, 0xb3, 0xe1, 0x45, 0x8a, 0x93, 0xa1, 0xc5, 0x0d, 0x1a,
   0x34, 0x68, 0xd0, 0x27, 0x4e, 0x9c, 0xbf, 0xf9, 0x75, 0xea, 0x53, 0xa6, 0xcb, 0x11, 0x22, 0x44,
   0x88, 0x97, 0xa9, 0xd5, 0x2d, 0x5a, 0xb4, 0xef, 0x59, 0xb2, 0xe3, 0x41, 0x82, 0x83, 0x81, 0x85,
   0x8d, 0x9d, 0xbd, 0xfd, 0x7d, 0xfa, 0x73, 0xe6, 0x4b, 0x96, 0xab, 0xd1, 0x25, 0x4a, 0x94, 0xaf,
   0xd9, 0x35, 0x6a, 0xd4, 0x2f, 0x5e, 0xbc, 0xff, 0x79, 0xf2, 0x63, 0xc6, 0x0b, 0x16, 0x2c, 0x58,
   0xb0, 0xe7, 0x49, 0x92, 0xa3, 0xc1, 0x05, 0x0a, 0x14, 0x28, 0x50, 0xa0, 0xc7, 0x09, 0x12, 0x24,
   0x48, 0x90, 0xa7, 0xc9, 0x15, 0x2a, 0x54, 0xa8, 0xd7, 0x29, 0x52, 0xa4, 0xcf, 0x19, 0x32, 0x64,
   0xc8, 0x17, 0x2e, 0x5c, 0xb8, 0xf7, 0x69, 0xd2, 0x23, 0x46, 0x8c, 0x9f, 0xb9, 0xf5, 0x6d, 0xda,
   0x33, 0x66, 0xcc, 0x1f, 0x3e, 0x7c, 0xf8, 0x77, 0xee, 0x5b, 0xb6, 0xeb, 0x51, 0xa2, 0xc3, 0x00]

/-- `INDEX_OF`: the logarithm of each byte, `a0` for zero. -/
def indexOfTable : List ℕ :=
  [0xff, 0x00, 0x01, 0x63, 0x02, 0xc6, 0x64, 0x6a, 0x03, 0xcd, 0xc7, 0xbc, 0x65, 0x7e, 0x6b, 0x2a,
   0x04, 0x8d, 0xce, 0x4e, 0xc8, 0xd4, 0xbd, 0xe1, 0x66, 0xdd, 0x7f, 0x31, 0x6c, 0x20, 0x2b, 0xf3,
   0x05, 0x57, 0x8e, 0xe8, 0xcf, 0xac, 0x4f, 0x83, 0xc9, 0xd9, 0xd5, 0x41, 0xbe, 0x94, 0xe2, 0xb4,
   0x67, 0x27, 0xde, 0xf0, 0x80, 0xb1, 0x32, 0x35, 0x6d, 0x45, 0x21, 0x12, 0x2c, 0x0d, 0xf4, 0x38,
   0x06, 0x9b, 0x58, 0x1a, 0x8f, 0x79, 0xe9, 0x70, 0xd0, 0xc2, 0xad, 0xa8, 0x50, 0x75, 0x84, 0x48,
   0xca, 0xfc, 0xda, 0x8a, 0xd6, 0x54, 0x42, 0x24, 0xbf, 0x98, 0x95, 0xf9, 0xe3, 0x5e, 0xb5, 0x15,
   0x68, 0x61, 0x28, 0xba, 0xdf, 0x4c, 0xf1, 0x2f, 0x81, 0xe6, 0xb2, 0x3f, 0x33, 0xee, 0x36, 0x10,
   0x6e, 0x18, 0x46, 0xa6, 0x22, 0x88, 0x13, 0xf7, 0x2d, 0xb8, 0x0e, 0x3d, 0xf5, 0xa4, 0x39, 0x3b,
   0x07, 0x9e, 0x9c, 0x9d, 0x59, 0x9f, 0x1b, 0x08, 0x90, 0x09, 0x7a, 0x1c, 0xea, 0xa0, 0x71, 0x5a,
   0xd1, 0x1d, 0xc3, 0x7b, 0xae, 0x0a, 0xa9, 0x91, 0x51, 0x5b, 0x76, 0x72, 0x85, 0xa1, 0x49, 0xeb,
   0xcb, 0x7c, 0xfd, 0xc4, 0xdb, 0x1e, 0x8b, 0xd2, 0xd7, 0x92, 0x55, 0xaa, 0x43, 0x0b, 0x25, 0xaf,
   0xc0, 0x73, 0x99, 0x77, 0x96, 0x5c, 0xfa, 0x52, 0xe4, 0xec, 0x5f, 0x4a, 0xb6, 0xa2, 0x16, 0x86,
   0x69, 0xc5, 0x62, 0xfe, 0x29, 0x7d, 0xbb, 0xcc, 0xe0, 0xd3, 0x4d, 0x8c, 0xf2, 0x1f, 0x30, 0xdc,
   0x82, 0xab, 0xe7, 0x56, 0xb3, 0x93, 0x40, 0xd8, 0x34, 0xb0, 0xef, 0x26, 0x37, 0x0c, 0x11, 0x44,
   0x6f, 0x78, 0x19, 0x9a, 0x47, 0x74, 0xa7, 0xc1, 0x23, 0x53, 0x89, 0xfb, 0x14, 0x5d, 0xf8, 0x97,
   0x2e, 0x4b, 0xb9, 0x60, 0x0f, 0xed, 0x3e, 0xe5, 0xf6, 0x87, 0xa5, 0x17, 0x3a, 0xa3, 0x3c, 0xb7]

/-- `ALPHA_TO[i]`. -/
def alphaTo (i : ℕ) : UInt8 := alphaToTable.getD i 0

/-- `INDEX_OF[x]`. -/
def indexOf (x : UInt8) : ℕ := indexOfTable.getD x.toNat 0

/-- `modnn`; every argument the codec passes is non-negative. -/
def modnn (x : ℕ) : ℕ := x % nn

/-! ## The tables -/

theorem modnn_lt (x : ℕ) : modnn x < nn := Nat.mod_lt _ (by decide)

theorem modnn_of_lt {x : ℕ} (h : x < nn) : modnn x = x := Nat.mod_eq_of_lt h

theorem alphaTo_indexOf_toNat :
    ∀ n < 256, n ≠ 0 → indexOf (UInt8.ofNat n) < nn ∧ alphaTo (indexOf (UInt8.ofNat n)) = UInt8.ofNat n := by
  decide +kernel

theorem indexOf_lt {x : UInt8} (hx : x ≠ 0) : indexOf x < nn := by
  have h := alphaTo_indexOf_toNat x.toNat x.toNat_lt (fun h => hx (UInt8.toNat_inj.mp h))
  rw [UInt8.ofNat_toNat] at h
  exact h.1

theorem alphaTo_indexOf {x : UInt8} (hx : x ≠ 0) : alphaTo (indexOf x) = x := by
  have h := alphaTo_indexOf_toNat x.toNat x.toNat_lt (fun h => hx (UInt8.toNat_inj.mp h))
  rw [UInt8.ofNat_toNat] at h
  exact h.2

theorem indexOf_alphaTo : ∀ i < 255, alphaTo i ≠ 0 ∧ indexOf (alphaTo i) = i := by decide +kernel

@[simp] theorem indexOf_zero : indexOf 0 = a0 := by decide

theorem indexOf_eq_a0_iff (x : UInt8) : indexOf x = a0 ↔ x = 0 := by
  constructor
  · intro h
    by_contra hx
    exact absurd h (Nat.ne_of_lt (indexOf_lt hx))
  · rintro rfl
    exact indexOf_zero

/-- Multiplication by `α`: shift and reduce by the primitive polynomial. -/
def xtime (x : UInt8) : UInt8 := ⟨(x.toBitVec <<< 1) ^^^ (if x.toBitVec.msb then 0x87#8 else 0#8)⟩

theorem alphaTo_succ : ∀ i < 255, alphaTo (modnn (i + 1)) = xtime (alphaTo i) := by decide +kernel

theorem xtime_xor (x y : UInt8) : xtime (x ^^^ y) = xtime x ^^^ xtime y := by
  apply UInt8.toBitVec_inj.mp
  simp only [xtime, UInt8.toBitVec_xor, BitVec.shiftLeft_xor_distrib, BitVec.msb_xor]
  generalize x.toBitVec <<< 1 = a, y.toBitVec <<< 1 = b
  cases x.toBitVec.msb <;> cases y.toBitVec.msb
  · simp
  · simp [BitVec.xor_assoc]
  · simp [BitVec.xor_assoc, BitVec.xor_comm b]
  · simp [BitVec.xor_assoc, BitVec.xor_comm b, ← BitVec.xor_assoc 135#8]

/-! ## The field -/

/-- A byte as an element of GF(256). -/
@[ext]
structure GF256 where
  byte : UInt8
deriving DecidableEq

namespace GF256

instance : Zero GF256 := ⟨⟨0⟩⟩
instance : One GF256 := ⟨⟨1⟩⟩
instance : Add GF256 := ⟨fun a b => ⟨a.byte ^^^ b.byte⟩⟩
instance : Neg GF256 := ⟨fun a => a⟩
instance : Mul GF256 :=
  ⟨fun a b => if a.byte = 0 ∨ b.byte = 0 then 0 else ⟨alphaTo (modnn (indexOf a.byte + indexOf b.byte))⟩⟩
instance : Inv GF256 := ⟨fun a => if a.byte = 0 then 0 else ⟨alphaTo (modnn (nn - indexOf a.byte))⟩⟩

/-- The power `α^e` as the code reads it from the table. -/
def exp (e : ℕ) : GF256 := ⟨alphaTo (modnn e)⟩

theorem exp_ne_zero (e : ℕ) : exp e ≠ 0 := fun h =>
  (indexOf_alphaTo (modnn e) (modnn_lt e)).1 (congrArg byte h)

theorem exp_mod (e : ℕ) : exp (modnn e) = exp e := by simp [exp, modnn]

theorem exp_mul_exp (i k : ℕ) : exp i * exp k = exp (i + k) := by
  have hi := indexOf_alphaTo (modnn i) (modnn_lt i)
  have hk := indexOf_alphaTo (modnn k) (modnn_lt k)
  change (if (exp i).byte = 0 ∨ (exp k).byte = 0 then (0 : GF256) else _) = _
  rw [if_neg (by rintro (h | h); exacts [hi.1 h, hk.1 h])]
  change (⟨alphaTo (modnn (indexOf (alphaTo (modnn i)) + indexOf (alphaTo (modnn k))))⟩ : GF256) = _
  rw [hi.2, hk.2]
  simp [exp, modnn]

/-- Every non-zero byte is a power of `α`. -/
theorem eq_exp {a : GF256} (ha : a ≠ 0) : a = exp (indexOf a.byte) := by
  have hb : a.byte ≠ 0 := fun h => ha (GF256.ext h)
  apply GF256.ext
  rw [exp, modnn_of_lt (indexOf_lt hb), alphaTo_indexOf hb]

protected theorem zero_mul (a : GF256) : 0 * a = 0 := if_pos (Or.inl rfl)

protected theorem mul_zero (a : GF256) : a * 0 = 0 := if_pos (Or.inr rfl)

/-- Multiplication by `α^k` is `k` shifts. -/
theorem mul_exp_eq_iterate (a : GF256) (k : ℕ) : a * exp k = ⟨xtime^[k] a.byte⟩ := by
  by_cases ha : a = 0
  · subst ha
    rw [GF256.zero_mul]
    have h0 : xtime 0 = 0 := by decide
    exact GF256.ext (Function.iterate_fixed h0 k).symm
  · rw [eq_exp ha, exp_mul_exp]
    apply GF256.ext
    induction k with
    | zero => rfl
    | succ k ih =>
      change _ = xtime^[k + 1] _
      rw [Function.iterate_succ_apply']
      change _ = xtime (⟨xtime^[k] _⟩ : GF256).byte
      rw [← ih]
      have h := alphaTo_succ (modnn (indexOf a.byte + k)) (modnn_lt _)
      simpa [exp, modnn, Nat.add_assoc] using h

theorem add_mul_exp (a b : GF256) (k : ℕ) : (a + b) * exp k = a * exp k + b * exp k := by
  simp only [mul_exp_eq_iterate]
  apply GF256.ext
  change xtime^[k] (a.byte ^^^ b.byte) = xtime^[k] a.byte ^^^ xtime^[k] b.byte
  induction k with
  | zero => rfl
  | succ k ih => rw [Function.iterate_succ_apply', ih, xtime_xor, Function.iterate_succ_apply',
      Function.iterate_succ_apply']

protected theorem mul_comm (a b : GF256) : a * b = b * a := by
  by_cases ha : a = 0
  · subst ha; rw [GF256.zero_mul, GF256.mul_zero]
  by_cases hb : b = 0
  · subst hb; rw [GF256.zero_mul, GF256.mul_zero]
  rw [eq_exp ha, eq_exp hb, exp_mul_exp, exp_mul_exp, Nat.add_comm]

protected theorem mul_assoc (a b c : GF256) : a * b * c = a * (b * c) := by
  by_cases ha : a = 0
  · subst ha; simp only [GF256.zero_mul]
  by_cases hb : b = 0
  · subst hb; simp only [GF256.zero_mul, GF256.mul_zero]
  by_cases hc : c = 0
  · subst hc; simp only [GF256.mul_zero]
  rw [eq_exp ha, eq_exp hb, eq_exp hc]
  simp only [exp_mul_exp, Nat.add_assoc]

protected theorem one_mul (a : GF256) : 1 * a = a := by
  by_cases ha : a = 0
  · subst ha; exact GF256.mul_zero 1
  · rw [eq_exp ha, show (1 : GF256) = exp 0 from rfl, exp_mul_exp, Nat.zero_add]

protected theorem left_distrib (a b c : GF256) : a * (b + c) = a * b + a * c := by
  by_cases ha : a = 0
  · subst ha
    simp only [GF256.zero_mul]
    rfl
  · rw [GF256.mul_comm a, eq_exp ha, add_mul_exp, GF256.mul_comm b, GF256.mul_comm c]

protected theorem mul_inv_cancel (a : GF256) (ha : a ≠ 0) : a * a⁻¹ = 1 := by
  have hb : a.byte ≠ 0 := fun h => ha (GF256.ext h)
  have hinv : a⁻¹ = exp (nn - indexOf a.byte) := if_neg hb
  have hlt := indexOf_lt hb
  rw [hinv]
  nth_rewrite 1 [eq_exp ha]
  rw [exp_mul_exp, Nat.add_sub_cancel' hlt.le]
  rfl

instance : Field GF256 :=
  Field.ofMinimalAxioms GF256
    (fun a b c => GF256.ext (UInt8.xor_assoc a.byte b.byte c.byte))
    (fun a => GF256.ext (UInt8.zero_xor))
    (fun a => GF256.ext (UInt8.xor_self))
    GF256.mul_assoc GF256.mul_comm GF256.one_mul GF256.mul_inv_cancel rfl GF256.left_distrib
    ⟨0, 1, by decide⟩

instance : CharP GF256 2 := CharTwo.of_one_ne_zero_of_two_eq_zero (by decide) (by decide)

@[simp] theorem mk_zero : (⟨0⟩ : GF256) = 0 := rfl

theorem mk_eq_zero_iff (x : UInt8) : (⟨x⟩ : GF256) = 0 ↔ x = 0 :=
  ⟨congrArg byte, fun h => h ▸ rfl⟩

theorem mk_xor (x y : UInt8) : (⟨x ^^^ y⟩ : GF256) = ⟨x⟩ + ⟨y⟩ := rfl

/-- The generator `α`. -/
def alpha : GF256 := ⟨2⟩

theorem exp_eq_pow (e : ℕ) : exp e = alpha ^ e := by
  induction e with
  | zero => rfl
  | succ e ih => rw [pow_succ, ← ih, show alpha = exp 1 from rfl, exp_mul_exp]

theorem alpha_ne_zero : alpha ≠ 0 := exp_ne_zero 1

/-- The byte `ALPHA_TO[modnn(e)]` is `α^e`. -/
theorem mk_alphaTo_modnn (e : ℕ) : (⟨alphaTo (modnn e)⟩ : GF256) = alpha ^ e := exp_eq_pow e

theorem alpha_pow_nn : alpha ^ nn = 1 := by rw [← exp_eq_pow]; rfl

theorem alpha_pow_modnn (e : ℕ) : alpha ^ modnn e = alpha ^ e := by
  rw [← exp_eq_pow, exp_mod, exp_eq_pow]

theorem alpha_pow_inj {i j : ℕ} (hi : i < nn) (hj : j < nn) (h : alpha ^ i = alpha ^ j) : i = j := by
  rw [← exp_eq_pow, ← exp_eq_pow] at h
  have hb : alphaTo i = alphaTo j := by
    simpa [exp, modnn_of_lt hi, modnn_of_lt hj] using congrArg byte h
  rw [← (indexOf_alphaTo i hi).2, hb, (indexOf_alphaTo j hj).2]

theorem alpha_pow_eq_iff (i j : ℕ) : alpha ^ i = alpha ^ j ↔ i % nn = j % nn := by
  constructor
  · intro h
    rw [← alpha_pow_modnn i, ← alpha_pow_modnn j] at h
    exact alpha_pow_inj (modnn_lt i) (modnn_lt j) h
  · intro h
    rw [← alpha_pow_modnn i, ← alpha_pow_modnn j, modnn, modnn, h]

theorem alpha_pow_eq_one_iff (i : ℕ) : alpha ^ i = 1 ↔ i % nn = 0 := by
  simpa using alpha_pow_eq_iff i 0

/-- Every non-zero element is `α^i` for one `i` in `1..255`. -/
theorem exists_alpha_pow {a : GF256} (ha : a ≠ 0) : ∃ i, 1 ≤ i ∧ i ≤ nn ∧ a = alpha ^ i := by
  have hb : a.byte ≠ 0 := fun h => ha (GF256.ext h)
  have hlt := indexOf_lt hb
  by_cases h0 : indexOf a.byte = 0
  · exact ⟨nn, by decide, le_rfl, by rw [alpha_pow_nn, eq_exp ha, h0]; rfl⟩
  · exact ⟨indexOf a.byte, Nat.pos_of_ne_zero h0, hlt.le, by rw [← exp_eq_pow]; exact eq_exp ha⟩

/-! ## Index form -/

/-- The element an index stands for. -/
def ofIdx (i : ℕ) : GF256 := if i = a0 then 0 else alpha ^ i

@[simp] theorem ofIdx_a0 : ofIdx a0 = 0 := if_pos rfl

@[simp] theorem ofIdx_indexOf (x : UInt8) : ofIdx (indexOf x) = ⟨x⟩ := by
  by_cases hx : x = 0
  · subst hx; rfl
  · have hlt := indexOf_lt hx
    rw [ofIdx, if_neg hlt.ne, ← mk_alphaTo_modnn, modnn_of_lt hlt, alphaTo_indexOf hx]

theorem ofIdx_of_lt {i : ℕ} (h : i < nn) : ofIdx i = alpha ^ i := if_neg h.ne

theorem ofIdx_eq_zero_iff (i : ℕ) : ofIdx i = 0 ↔ i = a0 := by
  unfold ofIdx
  split_ifs with h
  · simp [h]
  · simp [h, alpha_ne_zero]

/-- A product in index form, guarded against the sentinel as the code guards it. -/
theorem mk_alphaTo_guarded (i e : ℕ) :
    (⟨if i ≠ a0 then alphaTo (modnn (i + e)) else 0⟩ : GF256) = ofIdx i * alpha ^ e := by
  split_ifs with h
  · rw [mk_alphaTo_modnn, pow_add, ofIdx, if_neg h]
  · rw [not_not.mp h, ofIdx_a0, zero_mul]
    rfl

end GF256

/-! ## XOR sums -/

/-- The accumulation `acc ^= f i` over the indices `is`, started at zero. -/
def xorSum (is : List ℕ) (f : ℕ → UInt8) : UInt8 := is.foldl (fun acc i => acc ^^^ f i) 0

theorem mk_foldl_xor (is : List ℕ) (f : ℕ → UInt8) (acc : UInt8) :
    (⟨is.foldl (fun acc i => acc ^^^ f i) acc⟩ : GF256) = ⟨acc⟩ + (is.map fun i => (⟨f i⟩ : GF256)).sum := by
  induction is generalizing acc with
  | nil => simp
  | cons i is ih => rw [List.foldl_cons, ih, GF256.mk_xor, List.map_cons, List.sum_cons, add_assoc]

/-- An XOR accumulation is a sum in the field. -/
theorem mk_xorSum (is : List ℕ) (f : ℕ → UInt8) :
    (⟨xorSum is f⟩ : GF256) = (is.map fun i => (⟨f i⟩ : GF256)).sum := by
  rw [xorSum, mk_foldl_xor, GF256.mk_zero, zero_add]

end SimpleSatOps.Rs
