import SimpleSatOps.Basic
import SimpleSatOps.Lib.Bits
import SimpleSatOps.Lib.FirstMin

/-!
# The sync-word search (`asm_search.c`)

* `asmFindBest` : the scan with its 32-bit shift register;
* `wordAt`, `asmDist` : the word at an offset and its distance from the needle;
* `quiet` : no word further on is near the needle;
* `asmFindBest_spec` : the scan returns the first offset of least distance within the tolerance.
-/

namespace SimpleSatOps.AsmSearch
open FirstMin

/-- `ASM_BIG_ENDIAN_U32`. -/
abbrev asmBigEndianU32 : ℕ := 0x930B51DE

/-- `window = (window << 1) | bit`, in 32 bits. -/
def shiftIn (window : ℕ) (bit : Bool) : ℕ := (window <<< 1 ||| bit.toNat) % 2 ^ 32

/-- The main loop, `off` being the next offset: the best distance so far, 33 at first, and its offset. -/
def scan (needle maxHam : ℕ) : List Bool → ℕ → ℕ → ℕ × Option ℕ → ℕ × Option ℕ
  | [], _, _, best => best
  | bit :: rest, off, window, best =>
    let window := shiftIn window bit
    let h := popcount 32 (window ^^^ needle)
    if h ≤ maxHam ∧ h < best.1 then
      if h = 0 then (h, some off) else scan needle maxHam rest (off + 1) window (h, some off)
    else scan needle maxHam rest (off + 1) window best

/-- `asm_find_best`: `*out_ham` and the offset, `none` for `(size_t) -1`. -/
def asmFindBest (bits : List Bool) (needle maxHam minOffset : ℕ) : ℕ × Option ℕ :=
  if bits.length < 32 then (33, none)
  else if bits.length - 32 < minOffset then (33, none)
  else
    let window := (slice bits minOffset 32).foldl shiftIn 0
    let h := popcount 32 (window ^^^ needle)
    scan needle maxHam (bits.drop (minOffset + 32)) (minOffset + 1) window
      (if h ≤ maxHam then (h, some minOffset) else (33, none))

/-! ## The shift register -/

/-- The 32 bits from `off` on, first bit highest. -/
def wordAt (bits : List Bool) (off : ℕ) : ℕ := (slice bits off 32).foldl shiftIn 0

/-- The Hamming distance of the word at `off` from the needle. -/
def asmDist (bits : List Bool) (needle off : ℕ) : ℕ := popcount 32 (wordAt bits off ^^^ needle)

theorem shiftIn_eq (window : ℕ) (bit : Bool) : shiftIn window bit = (2 * window + bit.toNat) % 2 ^ 32 := by
  unfold shiftIn
  rw [shiftLeft_or_eq_add window le_rfl (bit.toNat_lt), pow_one, Nat.mul_comm]

theorem foldl_shiftIn (bits : List Bool) : bits.foldl shiftIn 0 = ofBits bits % 2 ^ 32 := by
  induction bits using List.reverseRecOn with
  | nil => rfl
  | append_singleton bits bit ih =>
    rw [List.foldl_append, ih, List.foldl_cons, List.foldl_nil, shiftIn_eq, ofBits_append_singleton]
    omega

theorem wordAt_eq (bits : List Bool) (off : ℕ) : wordAt bits off = ofBits (slice bits off 32) := by
  have hlt := ofBits_lt (slice bits off 32)
  have hlen : (slice bits off 32).length ≤ 32 := List.length_take_le _ _
  unfold wordAt
  rw [foldl_shiftIn]
  exact Nat.mod_eq_of_lt (hlt.trans_le (Nat.pow_le_pow_right (by decide) hlen))

/-- The register moves on by one bit. -/
theorem wordAt_succ {bits : List Bool} {off : ℕ} {bit : Bool} (h : bits[off + 32]? = some bit) :
    wordAt bits (off + 1) = shiftIn (wordAt bits off) bit := by
  obtain ⟨hlt, -⟩ := List.getElem?_eq_some_iff.mp h
  have hfirst := List.getElem?_eq_getElem (l := bits) (i := off) (by omega)
  have hlong : slice bits off 32 ++ [bit] = [bits[off]] ++ slice bits (off + 1) 32 := by
    have hlast : slice bits off 33 = slice bits off 32 ++ [bit] := by
      unfold slice
      rw [List.take_add_one, List.getElem?_drop, h]
      rfl
    rw [← hlast]
    unfold slice
    rw [List.drop_eq_getElem_cons (by omega), List.take_succ_cons]
    rfl
  have hval := congrArg ofBits hlong
  rw [ofBits_append_singleton, ofBits_append, length_slice (by omega)] at hval
  rw [wordAt_eq, wordAt_eq, shiftIn_eq, hval, Nat.mul_add_mod_self_right]
  have hlt' := ofBits_lt (slice bits (off + 1) 32)
  rw [length_slice (by omega)] at hlt'
  exact (Nat.mod_eq_of_lt hlt').symm

/-! ## Words that are far from the needle -/

/-- No word the register holds from here on is within the distance. -/
def quiet (needle maxHam : ℕ) : List Bool → ℕ → Bool
  | [], _ => true
  | bit :: rest, window =>
      decide (maxHam < popcount 32 (shiftIn window bit ^^^ needle)) && quiet needle maxHam rest (shiftIn window bit)

theorem lt_asmDist_of_quiet {bits : List Bool} {needle maxHam : ℕ} (rest : List Bool) :
    ∀ (off : ℕ), rest = bits.drop (off + 32) → quiet needle maxHam rest (wordAt bits off) = true →
      ∀ j, off < j → j + 32 ≤ bits.length → maxHam < asmDist bits needle j := by
  induction rest with
  | nil =>
      intro off hrest _ j hj hlen
      have hnil := List.drop_eq_nil_iff.mp hrest.symm
      omega
  | cons bit rest ih =>
      intro off hrest hquiet j hj hlen
      have hbit : bits[off + 32]? = some bit := by
        rw [← List.head?_drop, ← hrest, List.head?_cons]
      have htail : rest = bits.drop (off + 1 + 32) := by
        rw [show off + 1 + 32 = off + 32 + 1 by omega, ← List.tail_drop, ← hrest, List.tail_cons]
      unfold quiet at hquiet
      rw [Bool.and_eq_true, decide_eq_true_eq, ← wordAt_succ hbit] at hquiet
      rcases Nat.eq_or_lt_of_le (Nat.succ_le_of_lt hj) with rfl | hlt
      · exact hquiet.1
      · exact ih (off + 1) htail hquiet.2 j hlt hlen

/-- Only the word in front may be within the distance. -/
theorem eq_zero_of_quiet {bits : List Bool} {needle maxHam : ℕ}
    (h : quiet needle maxHam (bits.drop 32) (wordAt bits 0) = true) {off : ℕ} (hoff : off + 32 ≤ bits.length)
    (hdist : asmDist bits needle off ≤ maxHam) : off = 0 := by
  by_contra hne
  have hfar := lt_asmDist_of_quiet _ 0 (by rw [Nat.zero_add]) h off (Nat.pos_of_ne_zero hne) hoff
  omega

/-! ## The scan -/

/-- What the scan holds when its choice is `choice`. -/
def found (bits : List Bool) (needle : ℕ) : Option ℕ → ℕ × Option ℕ
  | none => (33, none)
  | some k => (asmDist bits needle k, some k)

variable {bits : List Bool} {needle maxHam minOffset : ℕ}

theorem scan_spec : ∀ (rest : List Bool) (off : ℕ) (choice : Option ℕ), rest = bits.drop (off + 32) →
    Best (asmDist bits needle) (asmDist bits needle · ≤ maxHam) minOffset (off + 1) choice → minOffset ≤ off →
    off + 32 ≤ bits.length → ∃ choice',
      Best (asmDist bits needle) (asmDist bits needle · ≤ maxHam) minOffset (bits.length - 31) choice' ∧
        scan needle maxHam rest (off + 1) (wordAt bits off) (found bits needle choice) = found bits needle choice'
  | [], off, choice, hrest, hbest, hmin, hlen => by
    have hend : bits.length ≤ off + 32 := List.drop_eq_nil_iff.mp hrest.symm
    refine ⟨choice, ?_, rfl⟩
    rwa [show bits.length - 31 = off + 1 by omega]
  | bit :: rest, off, choice, hrest, hbest, hmin, hlen => by
    have hbit : bits[off + 32]? = some bit := by
      have hhead := congrArg List.head? hrest
      rw [List.head?_drop] at hhead
      exact hhead.symm
    have htail : rest = bits.drop (off + 1 + 32) := by
      have h := congrArg List.tail hrest
      rw [List.tail_drop] at h
      rw [show off + 1 + 32 = off + 32 + 1 by omega]
      exact h
    obtain ⟨hlt, -⟩ := List.getElem?_eq_some_iff.mp hbit
    have hscan : ∀ best, scan needle maxHam (bit :: rest) (off + 1) (wordAt bits off) best =
        if asmDist bits needle (off + 1) ≤ maxHam ∧ asmDist bits needle (off + 1) < best.1 then
          if asmDist bits needle (off + 1) = 0 then (asmDist bits needle (off + 1), some (off + 1))
          else scan needle maxHam rest (off + 1 + 1) (wordAt bits (off + 1))
            (asmDist bits needle (off + 1), some (off + 1))
        else scan needle maxHam rest (off + 1 + 1) (wordAt bits (off + 1)) best := by
      intro best
      unfold asmDist
      rw [wordAt_succ hbit]
      rfl
    have hbound : asmDist bits needle (off + 1) ≤ 32 := popcount_le 32 _
    rw [hscan]
    split_ifs with hbetter hzero
    · have htake := hbest.take (by omega) hbetter.1 fun k hk => by
        subst hk
        exact hbetter.2
      exact ⟨some (off + 1), htake.extend_of_zero hzero (by omega), rfl⟩
    · have htake := hbest.take (by omega) hbetter.1 fun k hk => by
        subst hk
        exact hbetter.2
      exact scan_spec rest (off + 1) (some (off + 1)) htail htake (by omega) (by omega)
    · refine scan_spec rest (off + 1) choice htail ?_ (by omega) (by omega)
      cases choice with
      | none =>
        refine hbest.skip_none fun hle => hbetter ⟨hle, ?_⟩
        exact Nat.lt_succ_of_le hbound
      | some k => exact hbest.skip_some fun hle => Nat.not_lt.mp fun hlt => hbetter ⟨hle, hlt⟩

/-- **The search**: the first offset from `minOffset` on whose distance is least, among those within the tolerance. -/
theorem asmFindBest_spec (bits : List Bool) (needle maxHam minOffset : ℕ) : ∃ choice,
    Best (asmDist bits needle) (asmDist bits needle · ≤ maxHam) minOffset (bits.length - 31) choice ∧
      asmFindBest bits needle maxHam minOffset = found bits needle choice := by
  unfold asmFindBest
  by_cases hshort : bits.length < 32
  · rw [if_pos hshort]
    exact ⟨none, fun j _ hj => by omega, rfl⟩
  rw [if_neg hshort]
  by_cases hmin : bits.length - 32 < minOffset
  · rw [if_pos hmin]
    exact ⟨none, fun j _ hj => by omega, rfl⟩
  rw [if_neg hmin]
  have hempty := @Best.empty (asmDist bits needle) (asmDist bits needle · ≤ maxHam) minOffset
  change ∃ choice, _ ∧ scan needle maxHam _ _ (wordAt bits minOffset)
    (if asmDist bits needle minOffset ≤ maxHam then (asmDist bits needle minOffset, some minOffset) else (33, none)) = _
  split_ifs with hfirst
  · exact scan_spec _ minOffset (some minOffset) rfl (hempty.take le_rfl hfirst (by simp)) le_rfl (by omega)
  · exact scan_spec _ minOffset none rfl (hempty.skip_none hfirst) le_rfl (by omega)

end SimpleSatOps.AsmSearch
