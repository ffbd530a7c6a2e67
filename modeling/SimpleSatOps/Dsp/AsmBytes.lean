import SimpleSatOps.Dsp.AsmSearch
import SimpleSatOps.Lib.Hamming

/-!
# The sync-word search over a byte stream (`asm_search.c`, `asm_search_selftest.c`)

The search as the callers run it: one bit to a byte, a 32-bit register, a signed tolerance.

* `asmFindBest`, `refFindBest` : the rolling search and the one that rebuilds the word at every offset;
* `distance` : in how many of its 32 bits the stream differs from the needle at an offset;
* `asmFindBest_isFound`, `refFindBest_isFound` : both return the first offset of least distance;
* `asmFindBest_firstArgmin` : the result in terms of the distances, and that the two searches agree.
-/

namespace SimpleSatOps.AsmBytes
open FirstMin

/-! ## The two searches -/

/-- `window = (window << 1) | (bits[i] & 1u)`. -/
def shiftIn (window : UInt32) (b : UInt8) : UInt32 := window <<< 1 ||| (b &&& 1).toUInt32

/-- `__builtin_popcount`. -/
def builtinPopcount (x : UInt32) : ℕ := popcount 32 x.toNat

/-- The main loop: the best distance so far, 33 at first, and its offset. -/
def scan (needle : UInt32) (maxHam : ℤ) : List UInt8 → ℕ → UInt32 → ℕ × Option ℕ → ℕ × Option ℕ
  | [], _, _, best => best
  | b :: rest, off, window, best =>
    let window := shiftIn window b
    let h := builtinPopcount (window ^^^ needle)
    if (h : ℤ) ≤ maxHam ∧ h < best.1 then
      if h = 0 then (h, some off) else scan needle maxHam rest (off + 1) window (h, some off)
    else scan needle maxHam rest (off + 1) window best

/-- `asm_find_best`: `*out_ham` and the offset, `none` for `(size_t) -1`. -/
def asmFindBest (bits : List UInt8) (needle : UInt32) (maxHam : ℤ) (minOffset : ℕ) : ℕ × Option ℕ :=
  if bits.length < 32 then (33, none)
  else if bits.length - 32 < minOffset then (33, none)
  else
    let window := (slice bits minOffset 32).foldl shiftIn 0
    let h := builtinPopcount (window ^^^ needle)
    scan needle maxHam (bits.drop (minOffset + 32)) (minOffset + 1) window
      (if (h : ℤ) ≤ maxHam then (h, some minOffset) else (33, none))

/-- `ham32`: `while (x) { x &= x - 1; ++c; }`. -/
def ham32 (x : UInt32) : ℕ := if x = 0 then 0 else ham32 (x &&& (x - 1)) + 1
termination_by x.toNat
decreasing_by
  rename_i hx
  have hpos : 0 < x.toNat := Nat.pos_of_ne_zero fun h => hx (UInt32.toNat_inj.mp h)
  have hsub : (x - 1).toNat = x.toNat - 1 := UInt32.toNat_sub_of_le x 1 (UInt32.le_iff_toNat_le.mpr hpos)
  rw [UInt32.toNat_and, hsub]
  exact (Nat.and_le_right).trans_lt (Nat.sub_one_lt_of_lt hpos)

/-- The loop body of `ref_find_best`: the word at `off` is rebuilt from its 32 bits. -/
def refStep (bits : List UInt8) (needle : UInt32) (maxHam : ℤ) (best : ℕ × Option ℕ) (off : ℕ) : ℕ × Option ℕ :=
  let h := ham32 ((slice bits off 32).foldl shiftIn 0 ^^^ needle)
  if (h : ℤ) ≤ maxHam ∧ h < best.1 then (h, some off) else best

/-- `ref_find_best`: every offset from `minOffset` on is tried. -/
def refFindBest (bits : List UInt8) (needle : UInt32) (maxHam : ℤ) (minOffset : ℕ) : ℕ × Option ℕ :=
  if 32 ≤ bits.length then
    (List.range' minOffset (bits.length - 31 - minOffset)).foldl (refStep bits needle maxHam) (33, none)
  else (33, none)

/-! ## Bits and distances -/

/-- The bit a stream byte carries. -/
def bitOf (b : UInt8) : Bool := b.toNat.testBit 0

/-- The 32 bits of the needle, first bit highest. -/
def needleBits (needle : UInt32) : List Bool := (List.range 32).map fun i => needle.toNat.testBit (31 - i)

/-- In how many of the 32 bits from `off` on the stream differs from the needle. -/
def distance (bits : List UInt8) (needle : UInt32) (off : ℕ) : ℕ :=
  hamming ((slice bits off 32).map bitOf) (needleBits needle)

theorem toNat_bit (b : UInt8) : (b &&& 1).toUInt32.toNat = (bitOf b).toNat := by
  rw [UInt8.toNat_toUInt32, UInt8.toNat_and, bitOf, Nat.testBit_zero]
  change b.toNat &&& 1 = _
  rw [Nat.and_one_is_mod]
  rcases Nat.mod_two_eq_zero_or_one b.toNat with h | h <;> rw [h] <;> rfl

theorem toNat_shiftIn (window : UInt32) (b : UInt8) :
    (shiftIn window b).toNat = AsmSearch.shiftIn window.toNat (bitOf b) := by
  unfold shiftIn
  rw [AsmSearch.shiftIn_eq, UInt32.toNat_or, UInt32.toNat_shiftLeft, toNat_bit]
  have hbit := (bitOf b).toNat_lt
  change window.toNat <<< 1 % 2 ^ 32 ||| (bitOf b).toNat = _
  rw [Nat.shiftLeft_eq, or_eq_add_of_dvd 1 (by omega) hbit]
  omega

theorem toNat_foldl_shiftIn (bs : List UInt8) :
    (bs.foldl shiftIn 0).toNat = (bs.map bitOf).foldl AsmSearch.shiftIn 0 := by
  induction bs using List.reverseRecOn with
  | nil => rfl
  | append_singleton bs b ih =>
    rw [List.foldl_append, List.map_append, List.foldl_append, ← ih]
    exact toNat_shiftIn _ b

theorem map_slice (bits : List UInt8) (off n : ℕ) : (slice bits off n).map bitOf = slice (bits.map bitOf) off n := by
  unfold slice
  rw [List.map_take, List.map_drop]

theorem ofBits_needleBits (needle : UInt32) : ofBits (needleBits needle) = needle.toNat := by
  have hprefix : ∀ n ≤ 32, ofBits ((List.range n).map fun i => needle.toNat.testBit (31 - i)) =
      needle.toNat / 2 ^ (32 - n) := by
    intro n
    induction n with
    | zero =>
      intro _
      exact (Nat.div_eq_of_lt needle.toNat_lt).symm
    | succ n ih =>
      intro hn
      have hdiv : needle.toNat / 2 ^ (32 - n) = needle.toNat / 2 ^ (32 - (n + 1)) / 2 := by
        rw [Nat.div_div_eq_div_mul, ← pow_succ, show 32 - (n + 1) + 1 = 32 - n by omega]
      rw [List.range_succ, List.map_append, List.map_singleton, ofBits_append_singleton, ih (by omega), hdiv,
        show 32 - (n + 1) = 31 - n by omega, Nat.testBit_eq_decide_div_mod_eq]
      rcases Nat.mod_two_eq_zero_or_one (needle.toNat / 2 ^ (31 - n)) with h | h <;> simp [h] <;> omega
  have h := hprefix 32 le_rfl
  rwa [Nat.sub_self, pow_zero, Nat.div_one] at h

theorem length_needleBits (needle : UInt32) : (needleBits needle).length = 32 := by simp [needleBits]

theorem ham32_eq (x : UInt32) : ham32 x = builtinPopcount x := by
  induction x using ham32.induct with
  | case1 =>
    unfold ham32
    simp [builtinPopcount]
  | case2 x hx ih =>
    have hpos : 0 < x.toNat := Nat.pos_of_ne_zero fun h => hx (UInt32.toNat_inj.mp h)
    have hsub : (x - 1).toNat = x.toNat - 1 := UInt32.toNat_sub_of_le x 1 (UInt32.le_iff_toNat_le.mpr hpos)
    unfold ham32
    rw [if_neg hx, ih, builtinPopcount, builtinPopcount, UInt32.toNat_and, hsub]
    exact popcount_and_pred 32 x.toNat hpos.ne' x.toNat_lt

/-- The distance of the register's word from the needle. -/
theorem asmDist_eq {bits : List UInt8} {off : ℕ} (needle : UInt32) (h : off + 32 ≤ bits.length) :
    AsmSearch.asmDist (bits.map bitOf) needle.toNat off = distance bits needle off := by
  have hlen : (slice (bits.map bitOf) off 32).length = (needleBits needle).length := by
    rw [length_needleBits]
    exact length_slice (by simpa using h)
  unfold AsmSearch.asmDist distance
  rw [AsmSearch.wordAt_eq, map_slice, ← ofBits_needleBits needle]
  have hcount := popcount_xor_ofBits hlen
  rwa [hlen, length_needleBits] at hcount

theorem builtinPopcount_word (bits : List UInt8) (needle : UInt32) (off : ℕ) :
    builtinPopcount ((slice bits off 32).foldl shiftIn 0 ^^^ needle) =
      AsmSearch.asmDist (bits.map bitOf) needle.toNat off := by
  unfold builtinPopcount AsmSearch.asmDist AsmSearch.wordAt
  rw [UInt32.toNat_xor, toNat_foldl_shiftIn, map_slice]

/-! ## The rolling search -/

section Spec
variable {bits : List UInt8} {needle : UInt32} {maxHam : ℤ} {minOffset : ℕ}

/-- With a tolerance below zero nothing is ever taken. -/
theorem scan_of_neg (hneg : maxHam < 0) (rest : List UInt8) : ∀ (off : ℕ) (window : UInt32) (best : ℕ × Option ℕ),
    scan needle maxHam rest off window best = best := by
  induction rest with
  | nil => exact fun _ _ _ => rfl
  | cons b rest ih =>
    intro off window best
    unfold scan
    rw [if_neg fun h => by omega]
    exact ih _ _ _

/-- With another tolerance the bytes' low bits are scanned. -/
theorem scan_eq (tol : ℕ) (rest : List UInt8) : ∀ (off : ℕ) (window : UInt32) (best : ℕ × Option ℕ),
    scan needle tol rest off window best =
      AsmSearch.scan needle.toNat tol (rest.map bitOf) off window.toNat best := by
  induction rest with
  | nil => exact fun _ _ _ => rfl
  | cons b rest ih =>
    intro off window best
    have hh : builtinPopcount (shiftIn window b ^^^ needle) =
        popcount 32 (AsmSearch.shiftIn window.toNat (bitOf b) ^^^ needle.toNat) := by
      rw [builtinPopcount, UInt32.toNat_xor, toNat_shiftIn]
    rw [List.map_cons]
    unfold scan AsmSearch.scan
    simp only [ih, hh, toNat_shiftIn, Nat.cast_le]

theorem asmFindBest_of_neg (hneg : maxHam < 0) (bits : List UInt8) (needle : UInt32) (minOffset : ℕ) :
    asmFindBest bits needle maxHam minOffset = (33, none) := by
  unfold asmFindBest
  dsimp only
  rw [scan_of_neg hneg, if_neg (by omega : ¬ (_ : ℤ) ≤ maxHam), ite_self, ite_self]

/-- The search refines the one over bits. -/
theorem asmFindBest_eq (bits : List UInt8) (needle : UInt32) (tol minOffset : ℕ) :
    asmFindBest bits needle tol minOffset =
      AsmSearch.asmFindBest (bits.map bitOf) needle.toNat tol minOffset := by
  unfold asmFindBest AsmSearch.asmFindBest
  rw [List.length_map]
  dsimp only
  rw [scan_eq, toNat_foldl_shiftIn, builtinPopcount_word, map_slice, List.map_drop]
  simp only [Nat.cast_le]
  rfl

/-- What a search reports when its choice is `choice`. -/
def found (bits : List UInt8) (needle : UInt32) : Option ℕ → ℕ × Option ℕ
  | none => (33, none)
  | some k => (distance bits needle k, some k)

/-- The offsets of `[lo, hi)` that a search may report, and the first best of them. -/
abbrev Chosen (bits : List UInt8) (needle : UInt32) (maxHam : ℤ) (lo hi : ℕ) (choice : Option ℕ) : Prop :=
  Best (distance bits needle) (fun k => (distance bits needle k : ℤ) ≤ maxHam) lo hi choice

theorem asmFindBest_isFound (bits : List UInt8) (needle : UInt32) (maxHam : ℤ) (minOffset : ℕ) : ∃ choice,
    Chosen bits needle maxHam minOffset (bits.length - 31) choice ∧
      asmFindBest bits needle maxHam minOffset = found bits needle choice := by
  rcases lt_or_ge maxHam 0 with hneg | hpos
  · refine ⟨none, fun j _ _ hj => ?_, asmFindBest_of_neg hneg bits needle minOffset⟩
    omega
  obtain ⟨tol, rfl⟩ := Int.eq_ofNat_of_zero_le hpos
  obtain ⟨choice, hbest, heq⟩ :=
    AsmSearch.asmFindBest_spec (bits.map bitOf) needle.toNat tol minOffset
  rw [List.length_map] at hbest
  have hdist : ∀ j, j < bits.length - 31 →
      AsmSearch.asmDist (bits.map bitOf) needle.toNat j = distance bits needle j :=
    fun j hj => asmDist_eq needle (by omega)
  have hiff : ∀ j, j < bits.length - 31 → ((distance bits needle j : ℤ) ≤ tol ↔
      AsmSearch.asmDist (bits.map bitOf) needle.toNat j ≤ tol) := by
    intro j hj
    rw [hdist j hj, Nat.cast_le]
  refine ⟨choice, hbest.congr (fun j _ hj => (hdist j hj).symm) fun j _ hj => (hiff j hj), ?_⟩
  · rw [asmFindBest_eq, heq]
    cases choice with
    | none => rfl
    | some k => rw [AsmSearch.found, found, hdist k hbest.lt_hi]

/-! ## The naive search -/

theorem refStep_found {off : ℕ} (hoff : off + 32 ≤ bits.length) {choice : Option ℕ}
    (h : Chosen bits needle maxHam minOffset off choice) (hmin : minOffset ≤ off) : ∃ choice',
    Chosen bits needle maxHam minOffset (off + 1) choice' ∧
      refStep bits needle maxHam (found bits needle choice) off = found bits needle choice' := by
  have hdist : ham32 ((slice bits off 32).foldl shiftIn 0 ^^^ needle) = distance bits needle off := by
    rw [ham32_eq, builtinPopcount_word, asmDist_eq needle hoff]
  have hbound : distance bits needle off ≤ 32 := by
    rw [← asmDist_eq needle hoff]
    exact popcount_le 32 _
  unfold refStep
  rw [hdist]
  dsimp only
  split_ifs with hbetter
  · exact ⟨some off, h.take hmin hbetter.1 fun k hk => by
      subst hk
      exact hbetter.2, rfl⟩
  · refine ⟨choice, ?_, rfl⟩
    cases choice with
    | none =>
      refine h.skip_none fun hle => hbetter ⟨hle, ?_⟩
      exact Nat.lt_succ_of_le hbound
    | some k => exact h.skip_some fun hle => Nat.not_lt.mp fun hlt => hbetter ⟨hle, hlt⟩

theorem foldl_refStep : ∀ n, minOffset + n ≤ bits.length - 31 → ∃ choice,
    Chosen bits needle maxHam minOffset (minOffset + n) choice ∧
      (List.range' minOffset n).foldl (refStep bits needle maxHam) (33, none) = found bits needle choice
  | 0, _ => ⟨none, Best.empty, rfl⟩
  | n + 1, hn => by
    obtain ⟨choice, hbest, heq⟩ := foldl_refStep n (by omega)
    have hoff : minOffset + n + 32 ≤ bits.length := by omega
    obtain ⟨choice', hbest', heq'⟩ := refStep_found hoff hbest (Nat.le_add_right minOffset n)
    refine ⟨choice', hbest', ?_⟩
    rw [List.range'_1_concat, List.foldl_append, heq]
    exact heq'

theorem refFindBest_isFound (bits : List UInt8) (needle : UInt32) (maxHam : ℤ) (minOffset : ℕ) : ∃ choice,
    Chosen bits needle maxHam minOffset (bits.length - 31) choice ∧
      refFindBest bits needle maxHam minOffset = found bits needle choice := by
  unfold refFindBest
  split_ifs with hlong
  · rcases le_or_gt minOffset (bits.length - 31) with hmin | hmin
    · have h := @foldl_refStep bits needle maxHam minOffset (bits.length - 31 - minOffset) (by omega)
      rwa [Nat.add_sub_cancel' hmin] at h
    · rw [show bits.length - 31 - minOffset = 0 by omega]
      exact ⟨none, fun j h1 h2 => by omega, rfl⟩
  · exact ⟨none, fun j _ hj => by omega, rfl⟩

/-! ## The result -/

/-- `off` is an offset from `minOffset` on whose 32 bits are within the tolerance of the needle. -/
def Near (bits : List UInt8) (needle : UInt32) (maxHam : ℤ) (minOffset off : ℕ) : Prop :=
  minOffset ≤ off ∧ off + 32 ≤ bits.length ∧ (distance bits needle off : ℤ) ≤ maxHam

/-- **The search is the first argmin**: a match is reported exactly when some offset is near, the offset is the
smallest of those with the least distance, `*out_ham` that distance, and the naive search reports the same. -/
theorem asmFindBest_firstArgmin (bits : List UInt8) (needle : UInt32) (maxHam : ℤ) (minOffset : ℕ) :
    ((asmFindBest bits needle maxHam minOffset).2 ≠ none ↔ ∃ off, Near bits needle maxHam minOffset off) ∧
    ((asmFindBest bits needle maxHam minOffset).2 = none → (asmFindBest bits needle maxHam minOffset).1 = 33) ∧
    (∀ off, (asmFindBest bits needle maxHam minOffset).2 = some off →
      Near bits needle maxHam minOffset off ∧
      (asmFindBest bits needle maxHam minOffset).1 = distance bits needle off ∧
      ∀ j, Near bits needle maxHam minOffset j → distance bits needle off ≤ distance bits needle j ∧
        (distance bits needle j = distance bits needle off → off ≤ j)) ∧
    asmFindBest bits needle maxHam minOffset = refFindBest bits needle maxHam minOffset := by
  obtain ⟨choice, hbest, heq⟩ := asmFindBest_isFound bits needle maxHam minOffset
  obtain ⟨choice', hbest', heq'⟩ := refFindBest_isFound bits needle maxHam minOffset
  obtain rfl := hbest.unique hbest'
  rw [heq', heq]
  cases choice with
  | none =>
    have hnone : ¬ ∃ off, Near bits needle maxHam minOffset off := by
      rintro ⟨off, hmin, hlen, hnear⟩
      exact hbest off hmin (by omega) hnear
    refine ⟨iff_of_false (fun h => h rfl) hnone, fun _ => rfl, fun off hoff => ?_, rfl⟩
    cases hoff
  | some k =>
    have hk := hbest.lt_hi
    have hnear : Near bits needle maxHam minOffset k := ⟨hbest.lo_le, by omega, hbest.candidate⟩
    refine ⟨iff_of_true (Option.some_ne_none k) ⟨k, hnear⟩, fun h => absurd h (Option.some_ne_none k), ?_, rfl⟩
    intro off hoff
    obtain rfl : k = off := Option.some_inj.mp hoff
    refine ⟨hnear, rfl, fun j hj => ?_⟩
    obtain ⟨hmin, hlen, htol⟩ := hj
    refine ⟨hbest.le j hmin (by omega) htol, fun hsame => ?_⟩
    by_contra hlt
    have hless := hbest.lt j hmin (by omega) htol
    omega

end Spec

end SimpleSatOps.AsmBytes
