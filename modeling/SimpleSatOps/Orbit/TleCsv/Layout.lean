import SimpleSatOps.Orbit.TleCsv.Columns

/-!
# The lines of an element set

* `slice_piece` : the columns of a line that is put together from pieces;
* `line1_columns`, `line2_columns` : what the columns of the two lines are;
* `looksValidTle_iff` : when the check of the points passes.
-/

namespace SimpleSatOps.TleCsv

/-! ## Pieces -/

/-- One of the pieces of a line, whose widths are known. -/
theorem slice_piece {ps : List (List UInt8)} {ws : List ℕ} (h : ps.map List.length = ws) (t : List UInt8) (i : ℕ)
    {off n : ℕ} (hi : i < ws.length) (hoff : (ws.take i).sum = off) (hn : ws.getD i 0 = n) :
    slice (ps.flatten ++ t) off n = ps.getD i [] := by
  subst h
  induction ps generalizing i off with
  | nil => exact absurd hi (Nat.not_lt_zero _)
  | cons p ps ih =>
      cases i with
      | zero =>
          rw [List.take_zero, List.sum_nil] at hoff
          rw [List.map_cons, List.getD_cons_zero] at hn
          rw [← hoff, ← hn, slice, List.drop_zero, List.flatten_cons, List.append_assoc, List.take_left,
            List.getD_cons_zero]
      | succ i =>
          rw [List.map_cons, List.take_succ_cons, List.sum_cons] at hoff
          rw [List.map_cons, List.getD_cons_succ] at hn
          rw [List.map_cons, List.length_cons] at hi
          rw [← hoff, slice, List.flatten_cons, List.append_assoc, ← List.drop_drop, List.drop_left,
            List.getD_cons_succ]
          exact ih i (Nat.lt_of_succ_lt_succ hi) rfl hn

theorem getD_slice (l : List UInt8) (off : ℕ) {n i : ℕ} (h : i < n) :
    (slice l off n).getD i 0 = l.getD (off + i) 0 := by
  simp only [slice, List.getD_eq_getElem?_getD, List.getElem?_take, if_pos h, List.getElem?_drop]

/-- A point in a column is one in the line. -/
theorem slice_point {l column : List UInt8} {off n i : ℕ} (h : slice l off n = column) (hi : i < n)
    (hpoint : column.getD i 0 = byte '.') : l.getD (off + i) 0 = byte '.' := by
  rw [← getD_slice l off hi, h, hpoint]

theorem length_flatten_pieces {ps : List (List UInt8)} {ws : List ℕ} (h : ps.map List.length = ws) :
    ps.flatten.length = ws.sum := by
  rw [List.length_flatten, h]

/-- The last character of a line is its checksum. -/
theorem closeLine_checksum {line : List UInt8} (h : line.length = 68) :
    (closeLine line).length = 69 ∧ (closeLine line).getD 68 0 = digitByte (tleChecksum (closeLine line)) := by
  have hsame : tleChecksum (closeLine line) = tleChecksum line := by
    rw [tleChecksum, tleChecksum, closeLine, ← h, List.take_left, List.take_length]
  refine ⟨by rw [closeLine, List.length_append, h, List.length_singleton], ?_⟩
  rw [hsame, closeLine, List.getD_append_right _ _ _ _ h.le, h, Nat.sub_self, List.getD_cons_zero]

/-! ## The first line -/

theorem length_formatIdesg (objId : List UInt8) : (formatIdesg objId).length = 8 := by
  unfold formatIdesg
  dsimp only
  split
  · rename_i yy launch piece _
    have hyear : 2 ≤ (zeroPadInt 2 (yy.tmod 100)).length := by
      unfold zeroPadInt
      split_ifs
      · exact Nat.succ_le_succ (le_length_zeroPad 1 _)
      · exact le_length_zeroPad 2 _
    have hlaunch : 3 ≤ (zeroPadInt 3 launch).length := by
      unfold zeroPadInt
      split_ifs
      · exact Nat.succ_le_succ (le_length_zeroPad 2 _)
      · exact le_length_zeroPad 3 _
    have hpiece : 3 ≤ (padRight 3 piece).length := by
      rw [padRight, List.length_append, List.length_replicate]
      omega
    rw [snprintf, List.length_take, List.length_append, List.length_append]
    omega
  · decide

/-- The widths of the pieces of the first line. -/
def widths1 : List ℕ := [2, 5, 2, 8, 1, 14, 1, 10, 1, 8, 1, 8, 3, 4]

/-- The widths of the pieces of the second line. -/
def widths2 : List ℕ := [2, 5, 1, 8, 1, 8, 1, 7, 1, 8, 1, 8, 1, 11, 5]

section
variable {e : Elements} {ep : List UInt8} (hep : ep.length = 14) (hmdot : (formatMdot e.mdot).length = 10)
  (hmddot : (formatDecexp e.mddot).length = 8) (hbstar : (formatDecexp e.bstar).length = 8)
include hep hmdot hmddot hbstar

theorem line1_columns :
    (e.line1 ep).length = 69 ∧ (e.line1 ep).getD 68 0 = digitByte (tleChecksum (e.line1 ep)) ∧
      (e.line1 ep).getD 0 0 = byte '1' ∧ slice (e.line1 ep) 2 5 = noradColumn e.norad ∧
      slice (e.line1 ep) 18 14 = ep ∧ slice (e.line1 ep) 33 10 = formatMdot e.mdot ∧
      slice (e.line1 ep) 44 8 = formatDecexp e.mddot ∧ slice (e.line1 ep) 53 8 = formatDecexp e.bstar ∧
      slice (e.line1 ep) 61 3 = text " 0 " ∧ slice (e.line1 ep) 64 4 = intColumn 4 e.elementSetNo := by
  have hone : (text "1 ").length = 2 := by decide
  have hblank : (text " ").length = 1 := by decide
  have hzero : (text " 0 ").length = 3 := by decide
  have hwidths : List.map List.length
      [text "1 ", noradColumn e.norad, [classLetter e.classification, byte ' '], formatIdesg e.objectId, text " ", ep,
        text " ", formatMdot e.mdot, text " ", formatDecexp e.mddot, text " ", formatDecexp e.bstar, text " 0 ",
        intColumn 4 e.elementSetNo] = widths1 := by
    simp only [List.map_cons, List.map_nil, hone, hblank, hzero, hep, hmdot, hmddot, hbstar, length_noradColumn,
      length_formatIdesg, length_intColumn, List.length_cons, List.length_nil, widths1]
  have hlen := length_flatten_pieces hwidths
  have hclose := closeLine_checksum (hlen.trans (by decide))
  have hfirst : slice (e.line1 ep) 0 2 = text "1 " := slice_piece hwidths _ 0 (by decide) rfl rfl
  refine ⟨hclose.1, hclose.2, ?_, slice_piece hwidths _ 1 (by decide) rfl rfl,
    slice_piece hwidths _ 5 (by decide) rfl rfl, slice_piece hwidths _ 7 (by decide) rfl rfl,
    slice_piece hwidths _ 9 (by decide) rfl rfl, slice_piece hwidths _ 11 (by decide) rfl rfl,
    slice_piece hwidths _ 12 (by decide) rfl rfl, slice_piece hwidths _ 13 (by decide) rfl rfl⟩
  have hget := getD_slice (e.line1 ep) 0 (by decide : 0 < 2)
  rw [hfirst] at hget
  exact hget.symm

end

/-! ## The second line -/

theorem length_fixedColumn (w k : ℕ) (x : ℚ) : (fixedColumn w k x).length = w := by
  rw [fixedColumn, List.length_take, length_padLeft]
  omega

theorem line2_columns (e : Elements) :
    e.line2.length = 69 ∧ e.line2.getD 68 0 = digitByte (tleChecksum e.line2) ∧
      e.line2.getD 0 0 = byte '2' ∧ slice e.line2 2 5 = noradColumn e.norad ∧
      slice e.line2 8 8 = fixedColumn 8 4 e.inclination ∧ slice e.line2 17 8 = fixedColumn 8 4 e.raan ∧
      slice e.line2 26 7 = formatEcc e.eccentricity ∧ slice e.line2 34 8 = fixedColumn 8 4 e.omega ∧
      slice e.line2 43 8 = fixedColumn 8 4 e.meanAnomaly ∧ slice e.line2 52 11 = fixedColumn 11 8 e.meanMotion ∧
      slice e.line2 63 5 = intColumn 5 e.revAtEpoch := by
  have htwo : (text "2 ").length = 2 := by decide
  have hblank : (text " ").length = 1 := by decide
  have hwidths : List.map List.length
      [text "2 ", noradColumn e.norad, text " ", fixedColumn 8 4 e.inclination, text " ", fixedColumn 8 4 e.raan,
        text " ", formatEcc e.eccentricity, text " ", fixedColumn 8 4 e.omega, text " ",
        fixedColumn 8 4 e.meanAnomaly, text " ", fixedColumn 11 8 e.meanMotion, intColumn 5 e.revAtEpoch] =
        widths2 := by
    simp only [List.map_cons, List.map_nil, htwo, hblank, length_noradColumn, length_fixedColumn, length_formatEcc,
      length_intColumn, widths2]
  have hlen := length_flatten_pieces hwidths
  have hclose := closeLine_checksum (hlen.trans (by decide))
  have hfirst : slice e.line2 0 2 = text "2 " := slice_piece hwidths _ 0 (by decide) rfl rfl
  refine ⟨hclose.1, hclose.2, ?_, slice_piece hwidths _ 1 (by decide) rfl rfl,
    slice_piece hwidths _ 3 (by decide) rfl rfl, slice_piece hwidths _ 5 (by decide) rfl rfl,
    slice_piece hwidths _ 7 (by decide) rfl rfl, slice_piece hwidths _ 9 (by decide) rfl rfl,
    slice_piece hwidths _ 11 (by decide) rfl rfl, slice_piece hwidths _ 13 (by decide) rfl rfl,
    slice_piece hwidths _ 14 (by decide) rfl rfl⟩
  have hget := getD_slice e.line2 0 (by decide : 0 < 2)
  rw [hfirst] at hget
  exact hget.symm

/-- With every other point in its column, the check is about the one of the mean motion. -/
theorem looksValidTle_iff {l1 l2 : List UInt8} (h1 : l1.getD 0 0 = byte '1') (h2 : l2.getD 0 0 = byte '2')
    (hepoch : l1.getD 23 0 = byte '.') (hmdot : l1.getD 34 0 = byte '.') (hinclination : l2.getD 11 0 = byte '.')
    (hraan : l2.getD 20 0 = byte '.') (homega : l2.getD 37 0 = byte '.') (hanomaly : l2.getD 46 0 = byte '.')
    (hzero : slice l1 61 3 = text " 0 ") (hnorad : slice l1 2 5 = slice l2 2 5) :
    looksValidTle l1 l2 = true ↔ l2.getD 54 0 = byte '.' := by
  unfold looksValidTle
  rw [h1, h2, hepoch, hmdot, hinclination, hraan, homega, hanomaly, hzero, hnorad]
  simp only [beq_self_eq_true, Bool.and_self, Bool.true_and, Bool.and_true, beq_iff_eq]

end SimpleSatOps.TleCsv
