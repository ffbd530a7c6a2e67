import Mathlib.RingTheory.AdjoinRoot
import Mathlib.RingTheory.Polynomial.Basic
import Mathlib.Algebra.Field.ZMod
import Mathlib.Data.Nat.Bitwise
import Mathlib.GroupTheory.OrderOfElement
import Mathlib.Tactic

/-!
# Reflected CRC registers

A register of `w` bits is shifted down one place for each bit of the message; bit `i` is the coefficient of
`x ^ (w - 1 - i)`.

* `shift`, `feed`, `feedBits` : the register;
* `refl`, `gen`, `message` : registers, the generator and messages as polynomials over the field of two elements;
* `refl_feedBits` : the register holds a remainder;
* `feedBits_eq_iff` : two messages of one length leave the same register when the generator divides their difference;
* `feedBits_burst` : a change inside `w` successive bits is seen;
* `feedBits_pair_iff` : two changed bits are seen unless the order of `x` divides their distance;
* `orderOf_root` : that order, from squarings of a register.
-/

namespace SimpleSatOps.Crc
open Polynomial

/-! ## The register -/

/-- One place down; `p` is added when a one falls out. -/
def shift (p r : ℕ) : ℕ := if r % 2 = 1 then r / 2 ^^^ p else r / 2

/-- One bit of the message. -/
def feed (p r : ℕ) (b : Bool) : ℕ := shift p (r ^^^ b.toNat)

def feedBits (p r : ℕ) (bits : List Bool) : ℕ := bits.foldl (feed p) r

theorem feedBits_append (p r : ℕ) (a b : List Bool) : feedBits p r (a ++ b) = feedBits p (feedBits p r a) b :=
  List.foldl_append

theorem shift_xor (p a b : ℕ) : shift p (a ^^^ b) = shift p a ^^^ shift p b := by
  have hdiv : (a ^^^ b) / 2 = a / 2 ^^^ b / 2 := Nat.xor_div_two
  have hmod : (a ^^^ b) % 2 = (a % 2) ^^^ (b % 2) := Nat.xor_mod_two_pow (n := 1)
  unfold shift
  rw [hdiv, hmod]
  rcases Nat.mod_two_eq_zero_or_one a with ha | ha <;> rcases Nat.mod_two_eq_zero_or_one b with hb | hb
  · simp [ha, hb]
  · simp [ha, hb, Nat.xor_assoc]
  · simp [ha, hb, Nat.xor_assoc, Nat.xor_comm p]
  · have hcancel : (a / 2 ^^^ p) ^^^ (b / 2 ^^^ p) = a / 2 ^^^ b / 2 := by
      rw [Nat.xor_assoc, Nat.xor_comm (b / 2), ← Nat.xor_assoc p, Nat.xor_self, Nat.zero_xor]
    simp [ha, hb, hcancel]

theorem shift_lt {w p r : ℕ} (hp : p < 2 ^ w) (hr : r < 2 ^ w) : shift p r < 2 ^ w := by
  have hhalf : r / 2 < 2 ^ w := (Nat.div_le_self r 2).trans_lt hr
  unfold shift
  split_ifs
  · exact Nat.xor_lt_two_pow hhalf hp
  · exact hhalf

theorem feed_lt {w p r : ℕ} (hw : 0 < w) (hp : p < 2 ^ w) (hr : r < 2 ^ w) (b : Bool) : feed p r b < 2 ^ w :=
  shift_lt hp (Nat.xor_lt_two_pow hr (b.toNat_lt.trans_le (Nat.pow_le_pow_right two_pos hw)))

theorem feedBits_lt {w p : ℕ} (hw : 0 < w) (hp : p < 2 ^ w) (bits : List Bool) :
    ∀ {r : ℕ}, r < 2 ^ w → feedBits p r bits < 2 ^ w := by
  induction bits with
  | nil => exact fun hr => hr
  | cons b bits ih => exact fun hr => ih (feed_lt hw hp hr b)

/-- The `k` low bits of a word, lowest first. -/
def lowBits (k u : ℕ) : List Bool := (List.range k).map u.testBit

theorem lowBits_succ (k u : ℕ) : lowBits (k + 1) u = u.testBit 0 :: lowBits k (u / 2) := by
  unfold lowBits
  rw [List.range_succ_eq_map, List.map_cons, List.map_map]
  refine congrArg _ (List.map_congr_left fun i _ => ?_)
  exact Nat.testBit_succ u i

theorem lowBits_add {k a : ℕ} (m u : ℕ) (ha : a < 2 ^ k) :
    lowBits (k + m) (2 ^ k * u + a) = lowBits k a ++ lowBits m u := by
  unfold lowBits
  rw [List.range_add, List.map_append, List.map_map]
  refine congrArg₂ _ (List.map_congr_left fun i hi => ?_) (List.map_congr_left fun i _ => ?_)
  · rw [Nat.testBit_two_pow_mul_add _ ha, if_pos (List.mem_range.1 hi)]
  · rw [Function.comp_apply, Nat.testBit_two_pow_mul_add _ ha, if_neg (by omega), Nat.add_sub_cancel_left]

theorem shift_iterate_add (p k : ℕ) : ∀ a b : ℕ, (shift p)^[k] (a ^^^ b) = (shift p)^[k] a ^^^ (shift p)^[k] b := by
  induction k with
  | zero => exact fun _ _ => rfl
  | succ k ih =>
    intro a b
    rw [Function.iterate_succ_apply, shift_xor, ih]
    rfl

/-- A register that a shift clears was clear, when the feedback has its top bit. -/
theorem eq_zero_of_shift {w p r : ℕ} (hw : 0 < w) (htop : p.testBit (w - 1) = true) (hr : r < 2 ^ w)
    (h : shift p r = 0) : r = 0 := by
  unfold shift at h
  split_ifs at h with hodd
  · have hp : r / 2 = p := Nat.xor_eq_zero_iff.1 h
    have hle := Nat.ge_two_pow_of_testBit htop
    have hpow : 2 ^ w = 2 * 2 ^ (w - 1) := by rw [← pow_succ', Nat.sub_add_cancel hw]
    omega
  · omega

theorem eq_zero_of_shift_iterate {w p : ℕ} (hw : 0 < w) (hp : p < 2 ^ w) (htop : p.testBit (w - 1) = true) (k : ℕ) :
    ∀ {r : ℕ}, r < 2 ^ w → (shift p)^[k] r = 0 → r = 0 := by
  induction k with
  | zero => exact fun _ h => h
  | succ k ih => exact fun hr h => eq_zero_of_shift hw htop hr (ih (shift_lt hp hr) h)

/-- A word of `k` bits that is added at once, and shifted through. -/
theorem shift_iterate_xor (p k : ℕ) :
    ∀ (r u : ℕ), u < 2 ^ k → (shift p)^[k] (r ^^^ u) = feedBits p r (lowBits k u) := by
  induction k with
  | zero =>
    intro r u hu
    rw [pow_zero, Nat.lt_one_iff] at hu
    subst hu
    rw [Nat.xor_zero]
    rfl
  | succ k ih =>
    intro r u hu
    have hsplit : u = (u.testBit 0).toNat ^^^ 2 * (u / 2) := by
      rw [Nat.testBit_zero]
      rcases Nat.mod_two_eq_zero_or_one u with h | h
      · simp [h]
        omega
      · have hodd : (1 : ℕ) ^^^ 2 * (u / 2) = 2 * (u / 2) + 1 := by
          rw [Nat.xor_comm]
          exact Nat.xor_one_of_even (even_two_mul _)
        simp [h, hodd]
        omega
    have hrest : shift p (2 * (u / 2)) = u / 2 := by
      unfold shift
      rw [if_neg (by omega)]
      omega
    rw [Function.iterate_succ_apply, lowBits_succ]
    conv_lhs => rw [hsplit, ← Nat.xor_assoc, shift_xor, hrest]
    rw [ih _ _ (by rw [pow_succ] at hu; omega)]
    rfl

/-! ## Polynomials -/

/-- The coefficient of a bit. -/
def coef (b : Bool) : ZMod 2 := if b then 1 else 0

theorem coef_xor (a b : Bool) : coef (a ^^ b) = coef a + coef b := by cases a <;> cases b <;> decide

theorem coef_injective : Function.Injective coef := by decide

/-- A register: bit `i` is the coefficient of `X ^ (w - 1 - i)`. -/
noncomputable def refl (w r : ℕ) : (ZMod 2)[X] := ∑ i ∈ Finset.range w, C (coef (r.testBit i)) * X ^ (w - 1 - i)

/-- The generator that a register with feedback word `p` divides by. -/
noncomputable def gen (w p : ℕ) : (ZMod 2)[X] := X ^ w + refl w p

/-- A message, its first bit the highest coefficient. -/
noncomputable def message : List Bool → (ZMod 2)[X]
  | [] => 0
  | b :: bits => C (coef b) * X ^ bits.length + message bits

/-- The bits that are set, one power each. -/
theorem refl_eq_sum (w r : ℕ) : refl w r = (((List.range w).filter r.testBit).map fun i => X ^ (w - 1 - i)).sum := by
  have hsum : ∀ n, ∑ i ∈ Finset.range n, C (coef (r.testBit i)) * X ^ (w - 1 - i)
      = (((List.range n).filter r.testBit).map fun i => X ^ (w - 1 - i)).sum := fun n => by
    induction n with
    | zero => rfl
    | succ n ih =>
      rw [Finset.sum_range_succ, ih, List.range_succ, List.filter_append, List.map_append, List.sum_append]
      cases h : r.testBit n <;> simp [h, coef]
  exact hsum w

theorem refl_xor (w a b : ℕ) : refl w (a ^^^ b) = refl w a + refl w b := by
  simp only [refl, Nat.testBit_xor, coef_xor, C_add, add_mul, Finset.sum_add_distrib]

@[simp] theorem refl_zero (w : ℕ) : refl w 0 = 0 := by simp [refl, coef]

theorem refl_two_pow {w j : ℕ} (hj : j < w) : refl w (2 ^ j) = X ^ (w - 1 - j) := by
  unfold refl
  rw [Finset.sum_eq_single_of_mem j (Finset.mem_range.2 hj)]
  · simp [Nat.testBit_two_pow_self, coef]
  · intro i _ hij
    simp [Nat.testBit_two_pow_of_ne (Ne.symm hij), coef]

theorem degree_refl_lt (w r : ℕ) : (refl w r).degree < w := by
  rw [← mem_degreeLT]
  refine Submodule.sum_mem _ fun i hi => mem_degreeLT.2 ?_
  have hlt : w - 1 - i < w := by
    have := Finset.mem_range.1 hi
    omega
  exact (degree_C_mul_X_pow_le _ _).trans_lt (by exact_mod_cast hlt)

theorem coeff_refl {w i : ℕ} (r : ℕ) (hi : i < w) : (refl w r).coeff (w - 1 - i) = coef (r.testBit i) := by
  unfold refl
  rw [finsetSum_coeff, Finset.sum_eq_single_of_mem i (Finset.mem_range.2 hi)]
  · simp
  · intro j hj hne
    have := Finset.mem_range.1 hj
    rw [coeff_C_mul_X_pow, if_neg (by omega)]

theorem refl_inj {w a b : ℕ} (ha : a < 2 ^ w) (hb : b < 2 ^ w) (h : refl w a = refl w b) : a = b := by
  refine Nat.eq_of_testBit_eq fun i => ?_
  by_cases hi : i < w
  · exact coef_injective (by rw [← coeff_refl a hi, ← coeff_refl b hi, h])
  · have hle : 2 ^ w ≤ 2 ^ i := Nat.pow_le_pow_right two_pos (by omega)
    rw [Nat.testBit_lt_two_pow (ha.trans_le hle), Nat.testBit_lt_two_pow (hb.trans_le hle)]

theorem monic_gen (w p : ℕ) : (gen w p).Monic := monic_X_pow_add (degree_refl_lt w p)

theorem degree_gen (w p : ℕ) : (gen w p).degree = w := by
  unfold gen
  rw [degree_add_eq_left_of_degree_lt]
  · exact degree_X_pow w
  · rw [degree_X_pow]
    exact degree_refl_lt w p

theorem message_append (a b : List Bool) : message (a ++ b) = message a * X ^ b.length + message b := by
  induction a with
  | nil => simp [message]
  | cons c a ih =>
    simp only [List.cons_append, message, ih, List.length_append, pow_add]
    ring

theorem degree_message_lt (bits : List Bool) : (message bits).degree < bits.length := by
  induction bits with
  | nil => simp [message]
  | cons b bits ih =>
    have hlt : ((bits.length : ℕ) : WithBot ℕ) < ((b :: bits).length : ℕ) := by
      rw [List.length_cons]
      exact_mod_cast Nat.lt_succ_self _
    exact (degree_add_le _ _).trans_lt (max_lt ((degree_C_mul_X_pow_le _ _).trans_lt hlt) (ih.trans hlt))

theorem message_inj {a b : List Bool} (hlen : a.length = b.length) (h : message a = message b) : a = b := by
  induction a generalizing b with
  | nil => exact (List.eq_nil_of_length_eq_zero hlen.symm).symm
  | cons c a ih =>
    cases b with
    | nil => simp at hlen
    | cons d b =>
      have hlen' : a.length = b.length := by simpa using hlen
      have hcoeff : ∀ l : List Bool, (message l).coeff l.length = 0 := fun l =>
        coeff_eq_zero_of_degree_lt (degree_message_lt l)
      have hcd : coef c = coef d := by
        have := congrArg (fun f => f.coeff a.length) h
        simpa [message, hcoeff, hlen', hcoeff b, (hlen' ▸ hcoeff a : (message a).coeff b.length = 0)] using this
      obtain rfl := coef_injective hcd
      have htail : message a = message b := by
        simpa [message, hlen'] using h
      rw [ih hlen' htail]

/-! ## The register holds a remainder -/

theorem X_mul_refl {w r : ℕ} (hr : r < 2 ^ w) :
    X * refl w r = C (coef (r.testBit 0)) * X ^ w + refl w (r / 2) := by
  cases w with
  | zero =>
    obtain rfl : r = 0 := by simpa using hr
    simp [refl, coef]
  | succ w =>
    have htop : (r / 2).testBit w = false := Nat.testBit_lt_two_pow (by rw [pow_succ] at hr; omega)
    unfold refl
    rw [Finset.sum_range_succ', Finset.sum_range_succ _ w, mul_add, Finset.mul_sum, htop]
    have hterm : ∀ i ∈ Finset.range w, X * (C (coef (r.testBit (i + 1))) * X ^ (w + 1 - 1 - (i + 1)))
        = C (coef ((r / 2).testBit i)) * X ^ (w + 1 - 1 - i) := by
      intro i hi
      have hle := Finset.mem_range.1 hi
      rw [Nat.testBit_succ, show w + 1 - 1 - i = w + 1 - 1 - (i + 1) + 1 by omega, pow_succ]
      ring
    have hzero : C (coef false) = 0 := C_0
    rw [Finset.sum_congr rfl hterm, hzero, zero_mul, add_zero, add_comm, pow_succ', Nat.sub_zero,
      Nat.add_sub_cancel]
    ring

theorem X_pow_eq (w p : ℕ) : X ^ w = gen w p + refl w p := by
  rw [gen, add_assoc, CharTwo.add_self_eq_zero, add_zero]

/-- One place down multiplies by `X`. -/
theorem X_mul_refl_shift {w r : ℕ} (p : ℕ) (hr : r < 2 ^ w) :
    X * refl w r = C (coef (r.testBit 0)) * gen w p + refl w (shift p r) := by
  rw [X_mul_refl hr, Nat.testBit_zero, shift]
  rcases Nat.mod_two_eq_zero_or_one r with h | h
  · simp [h, coef]
  · rw [if_pos h, refl_xor, X_pow_eq w p]
    simp [h, coef]
    ring

section
variable {w p : ℕ} (hw : 0 < w)

include hw in
theorem refl_bit (b : Bool) : refl w b.toNat = C (coef b) * X ^ (w - 1) := by
  cases b
  · simp [refl_zero, coef]
  · rw [show true.toNat = 2 ^ 0 from rfl, refl_two_pow hw, coef, if_pos rfl, C_1, one_mul, Nat.sub_zero]

include hw in
theorem X_mul_refl_feed {r : ℕ} (hr : r < 2 ^ w) (b : Bool) :
    ∃ q, X * refl w r + C (coef b) * X ^ w = gen w p * q + refl w (feed p r b) := by
  have hlt : r ^^^ b.toNat < 2 ^ w :=
    Nat.xor_lt_two_pow hr (b.toNat_lt.trans_le (Nat.pow_le_pow_right two_pos hw))
  have hshift := X_mul_refl_shift p hlt
  rw [refl_xor, refl_bit hw, mul_add, mul_left_comm, ← pow_succ', Nat.sub_add_cancel hw, mul_comm _ (gen w p)]
    at hshift
  exact ⟨_, hshift⟩

include hw in
/-- What the bits of a message do to the register, modulo the generator. -/
theorem feedBits_congr (hp : p < 2 ^ w) (bits : List Bool) :
    ∀ {r : ℕ}, r < 2 ^ w → ∃ q, X ^ bits.length * refl w r + X ^ w * message bits
      = gen w p * q + refl w (feedBits p r bits) := by
  induction bits with
  | nil => exact fun {r} _ => ⟨0, by simp [message, feedBits]⟩
  | cons b bits ih =>
    intro r hr
    obtain ⟨q, hq⟩ := X_mul_refl_feed (p := p) hw hr b
    obtain ⟨q', hq'⟩ := ih (feed_lt hw hp hr b)
    refine ⟨X ^ bits.length * q + q', ?_⟩
    calc X ^ (b :: bits).length * refl w r + X ^ w * message (b :: bits)
        = X ^ bits.length * (X * refl w r + C (coef b) * X ^ w) + X ^ w * message bits := by
          rw [List.length_cons, pow_succ, message]
          ring
      _ = gen w p * (X ^ bits.length * q)
            + (X ^ bits.length * refl w (feed p r b) + X ^ w * message bits) := by
          rw [hq]
          ring
      _ = gen w p * (X ^ bits.length * q + q') + refl w (feedBits p r (b :: bits)) := by
          rw [hq']
          simp only [feedBits, List.foldl_cons]
          ring

include hw in
/-- **The register holds a remainder**: of the message shifted up by its width, and of what it held before. -/
theorem refl_feedBits (hp : p < 2 ^ w) (bits : List Bool) {r : ℕ} (hr : r < 2 ^ w) :
    refl w (feedBits p r bits) = (X ^ bits.length * refl w r + X ^ w * message bits) %ₘ gen w p := by
  obtain ⟨q, hq⟩ := feedBits_congr hw hp bits hr
  refine ((div_modByMonic_unique q _ (monic_gen w p) ⟨?_, ?_⟩).2).symm
  · rw [hq, add_comm]
  · rw [degree_gen]
    exact degree_refl_lt w _

/-! ## What a change does -/

variable (htop : p.testBit (w - 1) = true)

include hw htop in
theorem coprime_gen_X (k : ℕ) : IsCoprime (gen w p) (X ^ k) := by
  refine IsCoprime.pow_right ?_
  have hcoeff : (gen w p).coeff 0 = 1 := by
    have := coeff_refl (w := w) p (i := w - 1) (by omega)
    rw [Nat.sub_self, htop] at this
    rw [gen, coeff_add, coeff_X_pow, if_neg (by omega), zero_add, this]
    rfl
  refine (prime_X.coprime_iff_not_dvd.2 fun h => ?_).symm
  rw [X_dvd_iff, hcoeff] at h
  exact one_ne_zero h

include hw htop in
/-- Two messages of one length leave the same register when the generator divides their difference. -/
theorem feedBits_eq_iff (hp : p < 2 ^ w) {a b : List Bool} (hlen : a.length = b.length) {r : ℕ} (hr : r < 2 ^ w) :
    feedBits p r a = feedBits p r b ↔ gen w p ∣ message a - message b := by
  have hdvd : gen w p ∣ X ^ w * (message a - message b) ↔ gen w p ∣ message a - message b :=
    ⟨(coprime_gen_X hw htop w).dvd_of_dvd_mul_left, fun h => h.mul_left _⟩
  have hdiff : X ^ w * (message a - message b) = (X ^ a.length * refl w r + X ^ w * message a)
      - (X ^ b.length * refl w r + X ^ w * message b) := by
    rw [hlen]
    ring
  rw [← hdvd, hdiff, ← modByMonic_eq_zero_iff_dvd (monic_gen w p), sub_modByMonic, sub_eq_zero,
    ← refl_feedBits hw hp a hr, ← refl_feedBits hw hp b hr]
  exact ⟨fun h => by rw [h], refl_inj (feedBits_lt hw hp a hr) (feedBits_lt hw hp b hr)⟩

include hw htop in
theorem feedBits_inner (hp : p < 2 ^ w) (pre post : List Bool) {u v : List Bool} (hlen : u.length = v.length)
    {r : ℕ} (hr : r < 2 ^ w) :
    feedBits p r (pre ++ u ++ post) = feedBits p r (pre ++ v ++ post) ↔ gen w p ∣ message u - message v := by
  have hdiff : message (pre ++ u ++ post) - message (pre ++ v ++ post)
      = X ^ post.length * (message u - message v) := by
    simp only [message_append, hlen]
    ring
  rw [feedBits_eq_iff hw htop hp (by simp [hlen]) hr, hdiff]
  exact ⟨(coprime_gen_X hw htop _).dvd_of_dvd_mul_left, fun h => h.mul_left _⟩

include hw htop in
/-- **A change inside `w` successive bits is seen**, wherever it is in the message. -/
theorem feedBits_burst (hp : p < 2 ^ w) (pre post : List Bool) {u v : List Bool} (hlen : u.length = v.length)
    (hle : u.length ≤ w) (hne : u ≠ v) {r : ℕ} (hr : r < 2 ^ w) :
    feedBits p r (pre ++ u ++ post) ≠ feedBits p r (pre ++ v ++ post) := by
  intro h
  have hdvd := (feedBits_inner hw htop hp pre post hlen hr).1 h
  have hdeg : (message u - message v).degree < (gen w p).degree := by
    rw [degree_gen]
    have hbound : ((u.length : ℕ) : WithBot ℕ) ≤ w := by exact_mod_cast hle
    exact (degree_sub_le _ _).trans_lt (max_lt ((degree_message_lt u).trans_le hbound)
      ((degree_message_lt v).trans_le (hlen ▸ hbound)))
  have hzero := eq_zero_of_dvd_of_degree_lt hdvd hdeg
  exact hne (message_inj hlen (sub_eq_zero.1 hzero))

include hw htop in
/-- **Two changed bits** are seen unless the order of `x` divides their distance. -/
theorem feedBits_pair_iff (hp : p < 2 ^ w) (pre mid post : List Bool) (c d : Bool) {r : ℕ} (hr : r < 2 ^ w) :
    feedBits p r (pre ++ (c :: mid ++ [d]) ++ post) = feedBits p r (pre ++ ((!c) :: mid ++ [!d]) ++ post)
      ↔ orderOf (AdjoinRoot.root (gen w p)) ∣ mid.length + 1 := by
  have hflip : ∀ e : Bool, coef e - coef (!e) = 1 := by decide
  have hdiff : message (c :: mid ++ [d]) - message ((!c) :: mid ++ [!d]) = X ^ (mid.length + 1) - 1 := by
    have hc : C (coef c) - C (coef !c) = (1 : (ZMod 2)[X]) := by rw [← C_sub, hflip, C_1]
    have hd : C (coef d) - C (coef !d) = (1 : (ZMod 2)[X]) := by rw [← C_sub, hflip, C_1]
    simp only [List.cons_append, message, message_append, List.length_append, List.length_singleton,
      List.length_nil, pow_zero, pow_one, mul_one, add_zero]
    rw [CharTwo.sub_eq_add (X ^ _) 1]
    linear_combination (X ^ (mid.length + 1)) * hc + hd
  rw [feedBits_inner hw htop hp pre post (by simp) hr, hdiff, ← AdjoinRoot.mk_eq_zero, map_sub, map_pow,
    AdjoinRoot.mk_X, map_one, sub_eq_zero, orderOf_dvd_iff_pow_eq_one]

end

/-! ## The order of `x` -/

/-- What a register stands for modulo the generator. -/
noncomputable def residue (w p r : ℕ) : AdjoinRoot (gen w p) := AdjoinRoot.mk (gen w p) (refl w r)

/-- Horner's rule for the square of a register. -/
def square (w p r n : ℕ) : ℕ :=
  (List.range n).foldl (fun acc i => shift p (shift p acc) ^^^ if r.testBit i then 2 ^ (w - 1) else 0) 0

theorem residue_shift {w p r : ℕ} (hr : r < 2 ^ w) :
    residue w p (shift p r) = AdjoinRoot.root (gen w p) * residue w p r := by
  rw [residue, residue, ← AdjoinRoot.mk_X, ← map_mul, X_mul_refl_shift p hr, map_add, map_mul, AdjoinRoot.mk_self,
    mul_zero, zero_add]

theorem refl_succ (n r : ℕ) : refl (n + 1) r = X * refl n r + C (coef (r.testBit n)) := by
  unfold refl
  rw [Finset.sum_range_succ, Nat.add_sub_cancel, Nat.sub_self, pow_zero, mul_one, Finset.mul_sum]
  refine congrArg (· + _) (Finset.sum_congr rfl fun i hi => ?_)
  have := Finset.mem_range.1 hi
  rw [mul_left_comm, ← pow_succ', show n - 1 - i + 1 = n - i by omega]

theorem square_lt {w p : ℕ} (hw : 0 < w) (hp : p < 2 ^ w) (r n : ℕ) : square w p r n < 2 ^ w := by
  induction n with
  | zero => exact Nat.two_pow_pos w
  | succ n ih =>
    unfold square at ih ⊢
    rw [List.range_succ, List.foldl_append, List.foldl_cons, List.foldl_nil]
    refine Nat.xor_lt_two_pow (shift_lt hp (shift_lt hp ih)) ?_
    split_ifs
    · exact Nat.pow_lt_pow_right one_lt_two (by omega)
    · exact Nat.two_pow_pos w

theorem residue_square {w p : ℕ} (hw : 0 < w) (hp : p < 2 ^ w) (r n : ℕ) :
    residue w p (square w p r n) = AdjoinRoot.mk (gen w p) (refl n r) ^ 2 := by
  induction n with
  | zero =>
    have hempty : refl 0 r = 0 := Finset.sum_range_zero _
    rw [square, List.range_zero, List.foldl_nil, residue, refl_zero, hempty, map_zero, zero_pow two_ne_zero]
  | succ n ih =>
    have hstep : square w p r (n + 1) =
        shift p (shift p (square w p r n)) ^^^ if r.testBit n then 2 ^ (w - 1) else 0 := by
      unfold square
      rw [List.range_succ, List.foldl_append, List.foldl_cons, List.foldl_nil]
    have hbit : refl w (if r.testBit n then 2 ^ (w - 1) else 0) = C (coef (r.testBit n)) ^ 2 := by
      split_ifs with h
      · rw [refl_two_pow (by omega), Nat.sub_self, pow_zero, h, coef, if_pos rfl, C_1, one_pow]
      · rw [Bool.not_eq_true] at h
        simp [h, coef]
    have hlt := square_lt hw hp r n
    have hxor : ∀ a b, residue w p (a ^^^ b) = residue w p a + residue w p b := fun a b => by
      simp only [residue, refl_xor, map_add]
    have hsum : AdjoinRoot.mk (gen w p) (refl (n + 1) r) ^ 2 = AdjoinRoot.root (gen w p) ^ 2
        * AdjoinRoot.mk (gen w p) (refl n r) ^ 2 + AdjoinRoot.mk (gen w p) (C (coef (r.testBit n)) ^ 2) := by
      rw [refl_succ, ← map_pow, CharTwo.add_sq, mul_pow, map_add, map_mul, map_pow, map_pow, AdjoinRoot.mk_X]
    rw [hstep, hxor, residue_shift (shift_lt hp hlt), residue_shift hlt, ih, residue, hbit, hsum, ← mul_assoc,
      ← pow_two]

theorem residue_square_iterate {w p : ℕ} (hw : 0 < w) (hp : p < 2 ^ w) (r k : ℕ) :
    residue w p ((fun a => square w p a w)^[k] r) = residue w p r ^ 2 ^ k := by
  induction k with
  | zero => simp
  | succ k ih => rw [Function.iterate_succ_apply', residue_square hw hp, pow_succ 2 k, pow_mul, ← ih, residue]

/-- `x` has a prime order when enough squarings lead back to it. -/
theorem orderOf_root {w p k : ℕ} (hw : 1 < w) (hp : p < 2 ^ w) (htop : p.testBit (w - 1) = true)
    (hprime : (2 ^ k - 1).Prime) (hsq : (fun a => square w p a w)^[k] (2 ^ (w - 2)) = 2 ^ (w - 2)) :
    orderOf (AdjoinRoot.root (gen w p)) = 2 ^ k - 1 := by
  have hX : residue w p (2 ^ (w - 2)) = AdjoinRoot.root (gen w p) := by
    rw [residue, refl_two_pow (by omega), show w - 1 - (w - 2) = 1 by omega, pow_one, AdjoinRoot.mk_X]
  have hpow := residue_square_iterate (by omega) hp (2 ^ (w - 2)) k
  rw [hsq, hX] at hpow
  have hdvd : gen w p ∣ X * (X ^ (2 ^ k - 1) - 1) := by
    rw [← AdjoinRoot.mk_eq_zero, map_mul, map_sub, map_pow, AdjoinRoot.mk_X, map_one, mul_sub, mul_one, ← pow_succ',
      Nat.sub_add_cancel Nat.one_le_two_pow, ← hpow, sub_self]
  have hone : AdjoinRoot.root (gen w p) ^ (2 ^ k - 1) = 1 := by
    have hcop := coprime_gen_X (by omega) htop 1
    rw [pow_one] at hcop
    have h := hcop.dvd_of_dvd_mul_left hdvd
    rwa [← AdjoinRoot.mk_eq_zero, map_sub, map_pow, AdjoinRoot.mk_X, map_one, sub_eq_zero] at h
  have hne : AdjoinRoot.root (gen w p) ≠ 1 := by
    intro h
    have hdvd' : gen w p ∣ X - 1 := by
      rw [← AdjoinRoot.mk_eq_zero, map_sub, AdjoinRoot.mk_X, map_one, h, sub_self]
    have hdeg : (X - 1 : (ZMod 2)[X]).degree < (gen w p).degree := by
      rw [← C_1, degree_X_sub_C, degree_gen]
      exact_mod_cast hw
    refine X_sub_C_ne_zero (1 : ZMod 2) ?_
    rw [C_1]
    exact eq_zero_of_dvd_of_degree_lt hdvd' hdeg
  have : Fact (2 ^ k - 1).Prime := ⟨hprime⟩
  exact orderOf_eq_prime hone hne

end SimpleSatOps.Crc
