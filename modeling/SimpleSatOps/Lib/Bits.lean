import Mathlib.Data.Finset.Card
import Mathlib.Data.Nat.Bitwise
import Mathlib.Tactic
import SimpleSatOps.Lib.Hamming

/-!
# Bit counts of words

`popcount n x` counts the set bits of `x` below bit `n`; on XORs it is the Hamming distance.

* `popcount_eq_card` : the count as the size of the set of bits;
* `popcount_xor_triangle`, `popcount_xor_comm` : the distance laws;
* `popcount_xor_mod_two` : parity is linear;
* `popcount_and_pred` : `x & (x - 1)` has one bit fewer;
* `ofBits` : the number a list of bits spells, first bit highest.
-/

namespace SimpleSatOps

def popcount : ℕ → ℕ → ℕ
  | 0, _ => 0
  | n + 1, x => x % 2 + popcount n (x / 2)

/-- The set bits of `x` below `n`. -/
def bitSet (n x : ℕ) : Finset ℕ := (Finset.range n).filter fun i => x.testBit i = true

theorem mem_bitSet {n x i : ℕ} : i ∈ bitSet n x ↔ i < n ∧ x.testBit i = true := by simp [bitSet]

theorem bitSet_succ (n x : ℕ) :
    bitSet (n + 1) x = (if x % 2 = 1 then {0} else ∅) ∪ (bitSet n (x / 2)).map (addRightEmbedding 1) := by
  ext i
  rw [mem_bitSet, Finset.mem_union, Finset.mem_map]
  simp only [mem_bitSet, addRightEmbedding_apply]
  cases i with
  | zero =>
    rw [Nat.testBit_zero, decide_eq_true_eq]
    split_ifs with h <;> simp [h]
  | succ i =>
    rw [Nat.testBit_succ]
    constructor
    · rintro ⟨hi, hb⟩
      exact Or.inr ⟨i, ⟨by omega, hb⟩, rfl⟩
    · rintro (h | ⟨j, ⟨hj, hb⟩, hji⟩)
      · split_ifs at h <;> simp at h
      · obtain rfl : j = i := by omega
        exact ⟨by omega, hb⟩

theorem popcount_eq_card (n x : ℕ) : popcount n x = (bitSet n x).card := by
  induction n generalizing x with
  | zero => rfl
  | succ n ih =>
    rw [popcount, ih, bitSet_succ, Finset.card_union_of_disjoint, Finset.card_map]
    · rcases Nat.mod_two_eq_zero_or_one x with h | h <;> simp [h]
    · rw [Finset.disjoint_left]
      intro i hi hmap
      obtain ⟨j, -, rfl⟩ := Finset.mem_map.mp hmap
      split_ifs at hi <;> simp at hi

@[simp] theorem popcount_zero (n : ℕ) : popcount n 0 = 0 := by
  rw [popcount_eq_card, Finset.card_eq_zero, bitSet]
  simp

theorem popcount_le (n x : ℕ) : popcount n x ≤ n := by
  rw [popcount_eq_card]
  exact (Finset.card_filter_le _ _).trans_eq (Finset.card_range n)

theorem popcount_mono {n m : ℕ} (h : n ≤ m) (x : ℕ) : popcount n x ≤ popcount m x := by
  rw [popcount_eq_card, popcount_eq_card]
  refine Finset.card_le_card fun i hi => ?_
  rw [mem_bitSet] at hi ⊢
  exact ⟨hi.1.trans_le h, hi.2⟩

theorem bitSet_xor (n x y : ℕ) : bitSet n (x ^^^ y) = symmDiff (bitSet n x) (bitSet n y) := by
  ext i
  rw [Finset.mem_symmDiff, mem_bitSet, mem_bitSet, mem_bitSet, Nat.testBit_xor]
  cases x.testBit i <;> cases y.testBit i <;> simp

/-- Every bit of the sum is in one argument; the shared bits are lost twice. -/
theorem popcount_xor_add (n x y : ℕ) :
    popcount n (x ^^^ y) + 2 * (bitSet n x ∩ bitSet n y).card = popcount n x + popcount n y := by
  have h1 := Finset.card_sdiff_add_card_inter (bitSet n x) (bitSet n y)
  have h2 := Finset.card_sdiff_add_card_inter (bitSet n y) (bitSet n x)
  have hdisj : Disjoint (bitSet n x \ bitSet n y) (bitSet n y \ bitSet n x) := by
    rw [Finset.disjoint_left]
    intro i hi hi'
    rw [Finset.mem_sdiff] at hi hi'
    exact hi.2 hi'.1
  rw [popcount_eq_card, bitSet_xor, symmDiff_def, Finset.sup_eq_union, Finset.card_union_of_disjoint hdisj,
    popcount_eq_card, popcount_eq_card]
  rw [Finset.inter_comm] at h2
  omega

theorem popcount_xor_mod_two (n x y : ℕ) : popcount n (x ^^^ y) % 2 = (popcount n x + popcount n y) % 2 := by
  have h := popcount_xor_add n x y
  omega

theorem popcount_xor_comm (n x y : ℕ) : popcount n (x ^^^ y) = popcount n (y ^^^ x) := by rw [Nat.xor_comm]

theorem popcount_xor_le (n x y : ℕ) : popcount n (x ^^^ y) ≤ popcount n x + popcount n y := by
  have h := popcount_xor_add n x y
  omega

/-- `x &= x - 1` clears one set bit. -/
theorem popcount_and_pred (n : ℕ) : ∀ x : ℕ, x ≠ 0 → x < 2 ^ n → popcount n (x &&& (x - 1)) + 1 = popcount n x := by
  induction n with
  | zero =>
    intro x hx hlt
    rw [pow_zero] at hlt
    omega
  | succ n ih =>
    intro x hx hlt
    rw [pow_succ] at hlt
    rw [popcount, popcount, Nat.and_mod_two_pow (n := 1), Nat.and_div_two]
    rcases Nat.mod_two_eq_zero_or_one x with h | h
    · -- an even number: the low bit stays clear, the rest loses its bit
      have hrest := ih (x / 2) (by omega) (by omega)
      rw [show (x - 1) / 2 = x / 2 - 1 by omega, show x % 2 ^ 1 = 0 by omega, Nat.zero_and, h]
      omega
    · rw [show (x - 1) / 2 = x / 2 by omega, Nat.and_self, show (x - 1) % 2 ^ 1 = 0 by omega, Nat.and_zero, h]
      omega

theorem xor_xor_xor_comm (a b c d : ℕ) : (a ^^^ b) ^^^ (c ^^^ d) = (a ^^^ c) ^^^ (b ^^^ d) := by
  rw [Nat.xor_assoc, ← Nat.xor_assoc b, Nat.xor_comm b c, Nat.xor_assoc, Nat.xor_assoc]

theorem popcount_xor_triangle (n x y z : ℕ) :
    popcount n (x ^^^ z) ≤ popcount n (x ^^^ y) + popcount n (y ^^^ z) := by
  have h := popcount_xor_le n (x ^^^ y) (y ^^^ z)
  rwa [Nat.xor_assoc, ← Nat.xor_assoc y y, Nat.xor_self, Nat.zero_xor] at h

/-- Fields with disjoint bits: OR is addition. -/
theorem or_eq_add_of_dvd {a b : ℕ} (k : ℕ) (ha : 2 ^ k ∣ a) (hb : b < 2 ^ k) : a ||| b = a + b := by
  obtain ⟨c, rfl⟩ := ha
  exact (Nat.two_pow_add_eq_or_of_lt hb c).symm

/-- Appending `k` low bits to a shifted word. -/
theorem shiftLeft_or_eq_add (a : ℕ) {b k m : ℕ} (h : k ≤ m) (hb : b < 2 ^ k) : a <<< m ||| b = a * 2 ^ m + b := by
  rw [Nat.shiftLeft_eq]
  exact or_eq_add_of_dvd k ((pow_dvd_pow 2 h).mul_left a) hb

theorem and_mask {m : ℕ} (k : ℕ) (hm : m + 1 = 2 ^ k) (x : ℕ) : x &&& m = x % 2 ^ k := by
  rw [← Nat.and_two_pow_sub_one_eq_mod, ← hm, Nat.add_sub_cancel]

/-- The big-endian word of four bytes. -/
theorem be32_eq {a b c d : ℕ} (hb : b < 2 ^ 8) (hc : c < 2 ^ 8) (hd : d < 2 ^ 8) :
    a <<< 24 ||| b <<< 16 ||| c <<< 8 ||| d = a * 2 ^ 24 + b * 2 ^ 16 + c * 2 ^ 8 + d := by
  rw [shiftLeft_or_eq_add a le_rfl (by rw [Nat.shiftLeft_eq]; omega), Nat.shiftLeft_eq, Nat.shiftLeft_eq]
  have h1 := @or_eq_add_of_dvd (a * 2 ^ 24 + b * 2 ^ 16) (c * 2 ^ 8) 16 (by omega) (by omega)
  rw [h1]
  exact or_eq_add_of_dvd 8 (by omega) hd

/-! ## Bit strings -/

/-- The number with the binary digits `bits`, first bit highest. -/
def ofBits (bits : List Bool) : ℕ := bits.foldl (fun x bit => 2 * x + bit.toNat) 0

@[simp] theorem ofBits_nil : ofBits [] = 0 := rfl

theorem ofBits_append_singleton (bits : List Bool) (bit : Bool) :
    ofBits (bits ++ [bit]) = 2 * ofBits bits + bit.toNat :=
  List.foldl_append

theorem ofBits_append (a b : List Bool) : ofBits (a ++ b) = ofBits a * 2 ^ b.length + ofBits b := by
  induction b using List.reverseRecOn with
  | nil => simp
  | append_singleton b bit ih =>
    rw [← List.append_assoc, ofBits_append_singleton, ofBits_append_singleton, ih, List.length_append,
      List.length_singleton, pow_succ]
    ring

theorem ofBits_lt (bits : List Bool) : ofBits bits < 2 ^ bits.length := by
  induction bits using List.reverseRecOn with
  | nil => exact Nat.one_pos
  | append_singleton bits bit ih =>
    have hbit := bit.toNat_lt
    rw [ofBits_append_singleton, List.length_append, List.length_singleton, pow_succ]
    omega

/-- The XOR of two bit strings of one length. -/
theorem ofBits_zipWith_xor (a : List Bool) : ∀ b : List Bool, a.length = b.length →
    ofBits (List.zipWith xor a b) = ofBits a ^^^ ofBits b := by
  induction a using List.reverseRecOn with
  | nil =>
    intro b hlen
    rw [List.eq_nil_of_length_eq_zero hlen.symm]
    rfl
  | append_singleton a c ih =>
    intro b hlen
    rcases List.eq_nil_or_concat b with rfl | ⟨b, d, rfl⟩
    · simp at hlen
    · rw [List.concat_eq_append] at hlen ⊢
      have hlen' : a.length = b.length := by simpa using hlen
      rw [List.zipWith_append hlen', List.zipWith_cons_cons, List.zipWith_nil_left, ofBits_append_singleton,
        ofBits_append_singleton, ofBits_append_singleton, ih b hlen']
      have hc : 2 * ofBits a + c.toNat = Nat.bit c (ofBits a) := by cases c <;> rfl
      have hd : 2 * ofBits b + d.toNat = Nat.bit d (ofBits b) := by cases d <;> rfl
      rw [hc, hd, Nat.xor_bit]
      cases c <;> cases d <;> rfl

theorem popcount_ofBits (bits : List Bool) : popcount bits.length (ofBits bits) = bits.count true := by
  induction bits using List.reverseRecOn with
  | nil => rfl
  | append_singleton bits bit ih =>
    have hbit := bit.toNat_lt
    have hstep : popcount (bits.length + 1) (2 * ofBits bits + bit.toNat) =
        (2 * ofBits bits + bit.toNat) % 2 + popcount bits.length ((2 * ofBits bits + bit.toNat) / 2) := rfl
    rw [List.length_append, List.length_singleton, ofBits_append_singleton, hstep, List.count_append, ← ih,
      show (2 * ofBits bits + bit.toNat) / 2 = ofBits bits by omega, Nat.add_comm]
    congr 1
    cases bit <;> simp

/-- The distance of two words is that of the bit strings that spell them. -/
theorem popcount_xor_ofBits {a b : List Bool} (h : a.length = b.length) :
    popcount a.length (ofBits a ^^^ ofBits b) = hamming a b := by
  have hcount := popcount_ofBits (List.zipWith xor a b)
  rw [List.length_zipWith, ← h, Nat.min_self, ofBits_zipWith_xor a b h] at hcount
  rw [hcount]
  clear hcount
  induction a generalizing b with
  | nil => simp [hamming, diffs]
  | cons x a ih =>
    cases b with
    | nil => simp at h
    | cons y b =>
      rw [List.zipWith_cons_cons, List.count_cons, hamming_cons, ih (by simpa using h)]
      cases x <;> cases y <;> simp

end SimpleSatOps
