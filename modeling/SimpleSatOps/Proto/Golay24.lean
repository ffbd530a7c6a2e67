import SimpleSatOps.Lib.Bits
import SimpleSatOps.Lib.FirstMin

/-!
# The Golay(24, 12) length field (`golay24.c`)

`golay24Encode` puts twelve parity bits above twelve data bits; `golay24Decode` tries all 4096 codewords and keeps
the first nearest one, up to distance 3.

* `golay24Encode_xor` : the code is linear;
* `golay24_min_weight` : non-zero codewords have at least 8 set bits;
* `golay24Decode_near` : up to three flipped bits are corrected and counted.
-/

namespace SimpleSatOps.Golay24

/-- `GOLAY24_GEN`. -/
def golay24Gen : List ℕ :=
  [0x8008ED, 0x4001DB, 0x2003B5, 0x100769, 0x080ED1, 0x040DA3, 0x020B47, 0x01068F, 0x008D1D, 0x004A3B, 0x002477,
    0x001FFE]

def golay24Parity (x : ℕ) : ℕ := popcount 32 x % 2

def golay24Encode (data12 : ℕ) : ℕ :=
  let r := data12 &&& 0x0FFF
  let s := golay24Gen.foldl (fun s row => s <<< 1 ||| golay24Parity (row &&& r)) 0
  (s &&& 0x0FFF) <<< 12 ||| r

/-- The search over `d`, with `best_dist` and `best_data`; it stops at distance zero. -/
def golay24Search (rx : ℕ) : ℕ → ℕ → ℕ × ℕ → ℕ × ℕ
  | 0, _, best => best
  | fuel + 1, d, best =>
    let dist := popcount 32 (golay24Encode d ^^^ rx)
    if dist < best.1 then
      if dist = 0 then (dist, d) else golay24Search rx fuel (d + 1) (dist, d)
    else golay24Search rx fuel (d + 1) best

/-- `golay24_decode`: the data, `none` for `-1`, and `*out_errors_corrected`. -/
def golay24Decode (word24 : ℕ) : Option ℕ × ℕ :=
  let rx := word24 &&& 0x00FFFFFF
  let best := golay24Search rx 4096 0 (25, 0)
  if best.1 > 3 then (none, best.1) else (some best.2, best.1)

/-! ## Linearity -/

/-- Appending a bit is adding it. -/
theorem shiftLeft_or_of_lt (s r k : ℕ) (hr : r < 2 ^ k) : s <<< k ||| r = s <<< k ^^^ r := by
  refine Nat.eq_of_testBit_eq fun i => ?_
  rw [Nat.testBit_or, Nat.testBit_xor, Nat.testBit_shiftLeft]
  by_cases hi : k ≤ i
  · rw [Nat.testBit_lt_two_pow (hr.trans_le (Nat.pow_le_pow_right (by decide) hi))]
    simp
  · simp [hi]

theorem golay24Parity_lt (x : ℕ) : golay24Parity x < 2 ^ 1 := Nat.mod_lt _ (by decide)

theorem golay24Parity_xor (x y : ℕ) : golay24Parity (x ^^^ y) = golay24Parity x ^^^ golay24Parity y := by
  rw [golay24Parity, popcount_xor_mod_two, Nat.add_mod, golay24Parity, golay24Parity]
  rcases Nat.mod_two_eq_zero_or_one (popcount 32 x) with h | h <;>
    rcases Nat.mod_two_eq_zero_or_one (popcount 32 y) with h' | h' <;> rw [h, h'] <;> rfl

theorem foldl_parity_xor (gen : List ℕ) (x y s t : ℕ) :
    gen.foldl (fun s row => s <<< 1 ||| golay24Parity (row &&& (x ^^^ y))) (s ^^^ t) =
      gen.foldl (fun s row => s <<< 1 ||| golay24Parity (row &&& x)) s ^^^
        gen.foldl (fun s row => s <<< 1 ||| golay24Parity (row &&& y)) t := by
  induction gen generalizing s t with
  | nil => rfl
  | cons row gen ih =>
    have hstep : (s ^^^ t) <<< 1 ||| golay24Parity (row &&& (x ^^^ y)) =
        (s <<< 1 ||| golay24Parity (row &&& x)) ^^^ (t <<< 1 ||| golay24Parity (row &&& y)) := by
      rw [shiftLeft_or_of_lt _ _ _ (golay24Parity_lt _), shiftLeft_or_of_lt _ _ _ (golay24Parity_lt _),
        shiftLeft_or_of_lt _ _ _ (golay24Parity_lt _), Nat.and_xor_distrib_left, golay24Parity_xor,
        Nat.shiftLeft_xor_distrib, xor_xor_xor_comm]
    rw [List.foldl_cons, hstep, ih]
    rfl

theorem and_lt_4096 (x : ℕ) : x &&& 0x0FFF < 2 ^ 12 := Nat.lt_succ_of_le Nat.and_le_right

theorem golay24Encode_xor (x y : ℕ) : golay24Encode (x ^^^ y) = golay24Encode x ^^^ golay24Encode y := by
  have hfold := foldl_parity_xor golay24Gen (x &&& 0x0FFF) (y &&& 0x0FFF) 0 0
  rw [Nat.xor_self, ← Nat.and_xor_distrib_right] at hfold
  rw [golay24Encode, golay24Encode, golay24Encode]
  rw [hfold, shiftLeft_or_of_lt _ _ _ (and_lt_4096 _), shiftLeft_or_of_lt _ _ _ (and_lt_4096 _),
    shiftLeft_or_of_lt _ _ _ (and_lt_4096 _), Nat.and_xor_distrib_right, Nat.and_xor_distrib_right,
    Nat.shiftLeft_xor_distrib, xor_xor_xor_comm]

theorem golay24Encode_lt (x : ℕ) : golay24Encode x < 2 ^ 24 := by
  rw [golay24Encode]
  refine Nat.or_lt_two_pow ?_ ((and_lt_4096 x).trans (by decide))
  rw [Nat.shiftLeft_eq, show 2 ^ 24 = 2 ^ 12 * 2 ^ 12 by rfl]
  exact Nat.mul_lt_mul_of_pos_right (and_lt_4096 _) (by decide)

/-- The low twelve bits are the data. -/
theorem golay24Encode_mod {x : ℕ} (hx : x < 2 ^ 12) : golay24Encode x % 2 ^ 12 = x := by
  rw [golay24Encode]
  rw [Nat.shiftLeft_eq, Nat.mul_comm, ← Nat.two_pow_add_eq_or_of_lt (and_lt_4096 x), Nat.mul_add_mod,
    Nat.mod_eq_of_lt (and_lt_4096 x)]
  exact Nat.and_two_pow_sub_one_of_lt_two_pow hx

/-! ## Minimum weight -/

/-- The codewords of the data bits `0..11`. -/
def codeRows : List ℕ :=
  [16769025, 4681730, 10727428, 13750280, 6877200, 11825184, 14299200, 15536256, 7770368, 3887616, 1946624, 9361408]

/-- `p` holds of every sum of `acc` and a subset of `rows`. -/
def spanAll (p : ℕ → Bool) : List ℕ → ℕ → Bool
  | [], acc => p acc
  | row :: rows, acc => spanAll p rows acc && spanAll p rows (acc ^^^ row)

theorem spanAll_codeRows : spanAll (fun c => c == 0 || Nat.ble 8 (popcount 24 c)) codeRows.reverse 0 = true := by
  decide +kernel

/-- A word below `2 ^ (k + 1)` is its low part plus its top bit. -/
theorem eq_mod_xor_bit {d k : ℕ} (hd : d < 2 ^ (k + 1)) :
    d = d % 2 ^ k ^^^ (if d.testBit k then 2 ^ k else 0) := by
  refine Nat.eq_of_testBit_eq fun i => ?_
  rw [Nat.testBit_xor, Nat.testBit_mod_two_pow]
  rcases Nat.lt_trichotomy i k with hi | rfl | hi
  · split_ifs <;> simp [hi, hi.ne']
  · split_ifs with hb <;> simp [Nat.testBit_two_pow_self, hb]
  · rw [Nat.testBit_lt_two_pow (hd.trans_le (Nat.pow_le_pow_right (by decide) hi))]
    split_ifs <;> simp [hi.ne]

/-- A check of the whole span is a check of every codeword. -/
theorem spanAll_spec (p : ℕ → Bool) (E : ℕ → ℕ) (hE : ∀ x y, E (x ^^^ y) = E x ^^^ E y) :
    ∀ (k : ℕ) (rows : List ℕ) (acc : ℕ), rows.length = k → (∀ i < k, rows.getD i 0 = E (2 ^ (k - 1 - i))) →
      spanAll p rows acc = true → ∀ d < 2 ^ k, p (acc ^^^ E d) = true
  | 0, [], acc, _, _, h => fun d hd => by
    have h0 : E 0 = 0 := by
      have := hE 0 0
      rwa [Nat.xor_self, Nat.xor_self] at this
    obtain rfl : d = 0 := by omega
    rw [h0, Nat.xor_zero]
    exact h
  | k + 1, row :: rows, acc, hlen, hrows, h => fun d hd => by
    rw [spanAll, Bool.and_eq_true] at h
    have hrow : row = E (2 ^ k) := hrows 0 (Nat.succ_pos k)
    have hrest : ∀ i < k, rows.getD i 0 = E (2 ^ (k - 1 - i)) := fun i hi => by
      have := hrows (i + 1) (by omega)
      rwa [List.getD_cons_succ, show k + 1 - 1 - (i + 1) = k - 1 - i by omega] at this
    have hlen' : rows.length = k := by simpa using hlen
    have hlt : d % 2 ^ k < 2 ^ k := Nat.mod_lt _ (Nat.two_pow_pos k)
    rw [eq_mod_xor_bit hd]
    split_ifs with hb
    · have hspan := spanAll_spec p E hE k rows _ hlen' hrest h.2 _ hlt
      rwa [hrow, Nat.xor_assoc, Nat.xor_comm (E _), ← hE] at hspan
    · rw [Nat.xor_zero]
      exact spanAll_spec p E hE k rows acc hlen' hrest h.1 _ hlt

/-- **The minimum distance**: a non-zero codeword has at least eight set bits. -/
theorem golay24_min_weight {d : ℕ} (hd : d < 4096) (h0 : d ≠ 0) : 8 ≤ popcount 24 (golay24Encode d) := by
  have hspan := spanAll_spec _ golay24Encode golay24Encode_xor 12 codeRows.reverse 0 rfl (by decide +kernel)
    spanAll_codeRows d hd
  rw [Nat.zero_xor, Bool.or_eq_true, beq_iff_eq, Nat.ble_eq] at hspan
  rcases hspan with hz | hw
  · have hmod := golay24Encode_mod (x := d) hd
    rw [hz] at hmod
    exact absurd hmod.symm h0
  · exact hw

/-! ## Decoding -/

/-- The distance of codeword `d` from the word received. -/
def golay24Dist (rx d : ℕ) : ℕ := popcount 32 (golay24Encode d ^^^ rx)

/-- `best` is the scan's choice, `(25, 0)` before there is one. -/
def HoldsBest (rx : ℕ) (best : ℕ × ℕ) : Option ℕ → Prop
  | none => best = (25, 0)
  | some k => best = (golay24Dist rx k, k)

theorem golay24Search_spec (rx : ℕ) : ∀ (fuel d : ℕ) (best : ℕ × ℕ) (choice : Option ℕ),
    FirstMin.Best (golay24Dist rx) (golay24Dist rx · < 25) 0 d choice → HoldsBest rx best choice →
    ∃ choice', FirstMin.Best (golay24Dist rx) (golay24Dist rx · < 25) 0 (d + fuel) choice' ∧
      HoldsBest rx (golay24Search rx fuel d best) choice'
  | 0, d, best, choice, h, hb => ⟨choice, h, hb⟩
  | fuel + 1, d, best, choice, h, hb => by
    have hle : best.1 ≤ 25 := by
      cases choice with
      | none => rw [hb]
      | some k =>
        rw [hb]
        exact h.candidate.le
    rw [golay24Search]
    change ∃ choice', _ ∧ HoldsBest rx (if golay24Dist rx d < best.1 then if golay24Dist rx d = 0 then
      (golay24Dist rx d, d) else golay24Search rx fuel (d + 1) (golay24Dist rx d, d)
      else golay24Search rx fuel (d + 1) best) choice'
    rw [show d + (fuel + 1) = d + 1 + fuel by omega]
    split_ifs with hlt h0
    · have htake := h.take (Nat.zero_le d) (hlt.trans_le hle) fun k hk => by
        subst hk
        rwa [hb] at hlt
      exact ⟨some d, htake.extend_of_zero h0 (by omega), rfl⟩
    · have htake := h.take (Nat.zero_le d) (hlt.trans_le hle) fun k hk => by
        subst hk
        rwa [hb] at hlt
      exact golay24Search_spec rx fuel (d + 1) _ (some d) htake rfl
    · refine golay24Search_spec rx fuel (d + 1) best choice ?_ hb
      cases choice with
      | none =>
        rw [hb] at hlt
        exact h.skip_none hlt
      | some k =>
        rw [hb] at hlt
        exact h.skip_some fun _ => Nat.not_lt.mp hlt

theorem golay24Dist_far {rx data d : ℕ} (hdata : data < 4096) (hd : d < 4096) (hne : d ≠ data)
    (h : golay24Dist rx data ≤ 3) : golay24Dist rx data < golay24Dist rx d := by
  have hweight := golay24_min_weight (d := d ^^^ data) (Nat.xor_lt_two_pow (n := 12) hd hdata)
    (fun h0 => hne (Nat.xor_eq_zero_iff.mp h0))
  have hmono := popcount_mono (show 24 ≤ 32 by decide) (golay24Encode (d ^^^ data))
  rw [golay24Encode_xor] at hweight hmono
  have htri := popcount_xor_triangle 32 (golay24Encode d) rx (golay24Encode data)
  rw [popcount_xor_comm 32 rx] at htri
  change _ ≤ golay24Dist rx d + golay24Dist rx data at htri
  omega

/-- **Up to three flipped bits are corrected and counted.** -/
theorem golay24Decode_near {word data : ℕ} (hdata : data < 4096)
    (h : popcount 32 (golay24Encode data ^^^ (word &&& 0x00FFFFFF)) ≤ 3) :
    golay24Decode word = (some data, popcount 32 (golay24Encode data ^^^ (word &&& 0x00FFFFFF))) := by
  have hfirst : FirstMin.Best (golay24Dist (word &&& 0x00FFFFFF)) (golay24Dist (word &&& 0x00FFFFFF) · < 25) 0 4096
      (some data) := by
    refine ⟨Nat.zero_le _, hdata, h.trans_lt (by decide), fun j _ hj _ => ?_, fun j _ hj _ => ?_⟩
    · by_cases hne : j = data
      · rw [hne]
      · exact (golay24Dist_far hdata hj hne h).le
    · exact golay24Dist_far hdata (hj.trans hdata) hj.ne h
  obtain ⟨choice, hbest, hholds⟩ := golay24Search_spec (word &&& 0x00FFFFFF) 4096 0 (25, 0) none .empty rfl
  rw [Nat.zero_add] at hbest
  obtain rfl := hbest.unique hfirst
  rw [HoldsBest] at hholds
  rw [golay24Decode, hholds]
  exact if_neg (Nat.not_lt.mpr h)

end SimpleSatOps.Golay24
