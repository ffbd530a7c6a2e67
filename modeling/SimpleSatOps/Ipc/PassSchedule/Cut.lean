import SimpleSatOps.Ipc.PassSchedule

/-!
# A line of passes that is cut

* `commaText` : texts with commas between them, and the end of the line;
* `Printed` : a number that is read back from its text, and stops nowhere else in it;
* `readVals_take` : the numbers that are read from a list that is cut;
* `toPasses_cutVals` : the passes they make;
* `Unharmed`, `unharmed_iff` : an azimuth that is cut, and still the same number.
-/

namespace SimpleSatOps.PassSchedule
open Json AgendaLine

/-! ## Lists of numbers -/

/-- The end of a line. -/
def lineEnd : List UInt8 := text "]\x7d\n"

/-- Texts with commas between them, and the end behind the last one. -/
def commaText : List (List UInt8) → List UInt8
  | [] => lineEnd
  | [t] => t ++ lineEnd
  | t :: u :: ts => t ++ byte ',' :: commaText (u :: ts)

/-- A number as it stands in a list. -/
structure Printed (t : List UInt8) (v : Double) : Prop where
  read : strtod t = some v
  head : ∃ c r, t = c :: r ∧ c ≠ byte ' ' ∧ c ≠ byte ',' ∧ c ≠ byte ']'
  stop : ∀ k, strtod (t.take k) ≠ none → strtodEnd (t.take k) = []

theorem Printed.stop_all {t : List UInt8} {v : Double} (h : Printed t v) : strtodEnd t = [] := by
  have hstop := h.stop t.length
  rw [List.take_length] at hstop
  exact hstop (by rw [h.read]; exact Option.some_ne_none v)

/-- What a list gives that is cut: the last number may be read from a part of its text. -/
def cutVals : List (List UInt8 × Double) → ℕ → List Double
  | [], _ => []
  | (t, v) :: ts, k =>
      if k ≤ t.length then (strtod (t.take k)).toList else v :: cutVals ts (k - t.length - 1)

theorem readVals_nil (want : ℕ) : readVals want [] = [] := by
  cases want with
  | zero => rfl
  | succ want => exact if_pos (.inl rfl)

section
variable {t : List UInt8} {v : Double} (h : Printed t v)
include h

/-- A number that is cut. -/
theorem readVals_shown (want k : ℕ) : readVals (want + 1) (t.take k) = (strtod (t.take k)).toList := by
  obtain ⟨c, r, rfl, -, -, hbracket⟩ := h.head
  have hstop := h.stop k
  cases k with
  | zero =>
      rw [List.take_zero, readVals_nil]
      rfl
  | succ k =>
      rw [List.take_succ_cons] at hstop ⊢
      have hopen : ¬ (c :: r.take k = [] ∨ (c :: r.take k).head? = some (byte ']')) := by
        rintro (hnil | hhead)
        · exact List.cons_ne_nil _ _ hnil
        · exact hbracket (Option.some.inj hhead)
      rw [readVals, if_neg hopen]
      cases hread : strtod (c :: r.take k) with
      | none => rfl
      | some x =>
          rw [hread] at hstop
          dsimp only
          rw [hstop (Option.some_ne_none x), List.dropWhile_nil, readVals_nil]
          rfl

/-- A number with a delimiter behind it. -/
theorem readVals_here {d : UInt8} (hd : Double.Delimits d) (want : ℕ) (r : List UInt8) :
    readVals (want + 1) (t ++ d :: r) =
      v :: readVals want ((d :: r).dropWhile isSeparator) := by
  have hread := (strtod_append hd t r).trans h.read
  have hend := strtodEnd_append hd t r
  rw [h.stop_all, List.nil_append] at hend
  obtain ⟨c, u, rfl, -, -, hbracket⟩ := h.head
  have hopen : ¬ (c :: (u ++ d :: r) = [] ∨ (c :: (u ++ d :: r)).head? = some (byte ']')) := by
    rintro (hnil | hhead)
    · exact List.cons_ne_nil _ _ hnil
    · exact hbracket (Option.some.inj hhead)
  rw [List.cons_append] at hread hend ⊢
  rw [readVals, if_neg hopen, hread]
  dsimp only
  rw [hend]

end

theorem commaText_cons (t : List UInt8) (ts : List (List UInt8)) :
    commaText (t :: ts) = t ++ if ts = [] then lineEnd else byte ',' :: commaText ts := by
  cases ts with
  | nil => rfl
  | cons u ts => rw [if_neg (List.cons_ne_nil u ts)]; rfl

/-- **The numbers that are read from a list that is cut.** -/
theorem readVals_take {ts : List (List UInt8 × Double)} (h : ∀ x ∈ ts, Printed x.1 x.2) (k : ℕ) :
    readVals ts.length ((commaText (ts.map Prod.fst)).take k) = cutVals ts k := by
  induction ts generalizing k with
  | nil => rfl
  | cons x ts ih =>
      obtain ⟨t, v⟩ := x
      obtain ⟨hx, hts⟩ := List.forall_mem_cons.mp h
      rw [List.map_cons, commaText_cons, List.length_cons, cutVals]
      by_cases hk : k ≤ t.length
      · rw [if_pos hk, List.take_append_of_le_length hk, readVals_shown hx]
      · obtain ⟨j, rfl⟩ : ∃ j, k = t.length + (j + 1) := ⟨k - t.length - 1, by omega⟩
        have hj : t.length + (j + 1) - t.length - 1 = j := by omega
        rw [if_neg hk, List.take_length_add_append, hj]
        cases ts with
        | nil =>
            have hend : lineEnd = byte ']' :: text "\x7d\n" := by decide
            rw [List.map_nil, if_pos rfl, hend, List.take_succ_cons, readVals_here hx Double.delimits_bracket]
            rfl
        | cons y ts =>
            have hne : (y :: ts).map Prod.fst ≠ [] := List.cons_ne_nil _ _
            have hhead : ((commaText ((y :: ts).map Prod.fst)).take j).dropWhile isSeparator =
                (commaText ((y :: ts).map Prod.fst)).take j := by
              obtain ⟨c, r, heq, hspace, hcomma, -⟩ := (hts y List.mem_cons_self).head
              cases j with
              | zero => rfl
              | succ j =>
                  rw [List.map_cons, commaText_cons, heq, List.cons_append, List.take_succ_cons]
                  exact List.dropWhile_cons_of_neg (by simp [isSeparator, hspace, hcomma])
            have hdrop : isSeparator (byte ',') = true := by decide
            rw [if_neg hne, List.take_succ_cons, readVals_here hx Double.delimits_comma,
              List.dropWhile_cons_of_pos hdrop, hhead, ih hts]

/-! ## Lists of passes -/

namespace PassTWire
variable (p : PassTWire)

/-- The numbers of a pass. -/
def numbers : List (List UInt8 × Double) :=
  [(p.aosUnix.printWhole, p.aosUnix), (p.losUnix.printWhole, p.losUnix), (p.peakUnix.printWhole, p.peakUnix),
    (p.peakElDeg.printFixed 3, p.peakElDeg), (p.peakAzDeg.printFixed 3, p.peakAzDeg)]

/-- The text in front of the azimuth. -/
def azFront : List UInt8 :=
  p.aosUnix.printWhole ++ byte ',' :: (p.losUnix.printWhole ++ byte ',' :: (p.peakUnix.printWhole ++ byte ',' ::
    (p.peakElDeg.printFixed 3 ++ [byte ','])))

/-- The azimuth. -/
def azText : List UInt8 := p.peakAzDeg.printFixed 3

theorem wireText_eq : p.wireText = p.azFront ++ p.azText := by
  simp [wireText, azFront, azText]

end PassTWire

/-- The numbers of all passes stand in one list. -/
theorem commaText_numbers (ps : List PassTWire) :
    commaText ((ps.flatMap PassTWire.numbers).map Prod.fst) = commaText (ps.map PassTWire.wireText) := by
  induction ps with
  | nil => rfl
  | cons p ps ih =>
      have hnil : (ps.flatMap PassTWire.numbers).map Prod.fst = [] ↔ ps.map PassTWire.wireText = [] := by
        cases ps with
        | nil => exact iff_of_true rfl rfl
        | cons q ps => exact iff_of_false (List.cons_ne_nil _ _) (List.cons_ne_nil _ _)
      rw [List.flatMap_cons, List.map_append, List.map_cons, commaText_cons p.wireText, ← ih]
      simp only [PassTWire.numbers, List.map_cons, List.map_nil, List.cons_append, List.nil_append]
      rw [commaText_cons, if_neg (List.cons_ne_nil _ _), commaText_cons, if_neg (List.cons_ne_nil _ _), commaText_cons,
        if_neg (List.cons_ne_nil _ _), commaText_cons, if_neg (List.cons_ne_nil _ _), commaText_cons,
        PassTWire.wireText]
      by_cases hps : ps.map PassTWire.wireText = []
      · rw [if_pos hps, if_pos (hnil.mpr hps)]
        simp
      · rw [if_neg hps, if_neg (mt hnil.mp hps)]
        simp

/-- The passes a list gives that is cut. -/
def cutPasses : List PassTWire → ℕ → List PassTWire
  | [], _ => []
  | p :: ps, k =>
      if k ≤ p.azFront.length then []
      else if k ≤ p.wireText.length then
        (strtod (p.azText.take (k - p.azFront.length))).toList.map fun v => { p with peakAzDeg := v }
      else p :: cutPasses ps (k - p.wireText.length - 1)

theorem toPasses_short {vals : List Double} (h : vals.length < 5) : toPasses vals = [] := by
  match vals with
  | [] | [_] | [_, _] | [_, _, _] | [_, _, _, _] => rfl
  | _ :: _ :: _ :: _ :: _ :: _ => exact absurd h (by simp)

/-- The length of some texts with a comma behind each. -/
def widthOf (xs : List (List UInt8 × Double)) : ℕ := (xs.map fun x => x.1.length + 1).sum

theorem widthOf_cons (x : List UInt8 × Double) (xs : List (List UInt8 × Double)) :
    widthOf (x :: xs) = x.1.length + 1 + widthOf xs := rfl

/-- Behind a cut no number is read that stands behind it. -/
theorem length_cutVals_le {xs : List (List UInt8 × Double)} {k : ℕ} (h : k ≤ widthOf xs)
    (rest : List (List UInt8 × Double)) : (cutVals (xs ++ rest) k).length ≤ xs.length := by
  induction xs generalizing k with
  | nil =>
      obtain rfl : k = 0 := Nat.le_zero.mp h
      have hnone : strtod [] = none := by decide
      cases rest with
      | nil => exact le_rfl
      | cons x rest =>
          rw [List.nil_append, cutVals, if_pos (Nat.zero_le _), List.take_zero, hnone]
          exact le_rfl
  | cons x xs ih =>
      rw [widthOf_cons] at h
      rw [List.cons_append, cutVals, List.length_cons]
      split_ifs with hk
      · cases strtod (x.1.take k) <;> simp
      · have hrest := ih (k := k - x.1.length - 1) (by omega)
        rw [List.length_cons]
        omega

/-- Every number in front of it is. -/
theorem cutVals_append {xs : List (List UInt8 × Double)} {k : ℕ} (h : widthOf xs ≤ k)
    (rest : List (List UInt8 × Double)) :
    cutVals (xs ++ rest) k = xs.map Prod.snd ++ cutVals rest (k - widthOf xs) := by
  induction xs generalizing k with
  | nil => rfl
  | cons x xs ih =>
      rw [widthOf_cons] at h ⊢
      have hrest : k - x.1.length - 1 - widthOf xs = k - (x.1.length + 1 + widthOf xs) := by omega
      rw [List.cons_append, cutVals, if_neg (by omega), ih (by omega), hrest]
      rfl

/-- **The passes that are read from a list that is cut.** -/
theorem toPasses_cutVals (ps : List PassTWire) (k : ℕ) :
    toPasses (cutVals (ps.flatMap PassTWire.numbers) k) = cutPasses ps k := by
  induction ps generalizing k with
  | nil => rfl
  | cons p ps ih =>
      have hwidth : widthOf (p.numbers.take 4) = p.azFront.length := by
        simp only [PassTWire.numbers, PassTWire.azFront, widthOf, List.take_succ_cons, List.take_zero, List.map_cons,
          List.map_nil, List.sum_cons, List.sum_nil, List.length_append, List.length_cons, List.length_nil]
        omega
      have hnumbers : (p :: ps).flatMap PassTWire.numbers =
          p.numbers.take 4 ++ (p.azText, p.peakAzDeg) :: ps.flatMap PassTWire.numbers := rfl
      have hlen := congrArg List.length p.wireText_eq
      rw [List.length_append] at hlen
      rw [hnumbers, cutPasses]
      by_cases hfront : k ≤ p.azFront.length
      · have hshort := length_cutVals_le (hwidth.symm ▸ hfront)
          ((p.azText, p.peakAzDeg) :: ps.flatMap PassTWire.numbers)
        rw [if_pos hfront]
        exact toPasses_short (Nat.lt_succ_of_le hshort)
      · rw [if_neg hfront, cutVals_append (by omega), hwidth, cutVals]
        by_cases haz : k ≤ p.wireText.length
        · rw [if_pos haz, if_pos (by omega)]
          cases strtod (p.azText.take (k - p.azFront.length)) <;> rfl
        · have hrest : k - p.azFront.length - p.azText.length - 1 = k - p.wireText.length - 1 := by omega
          rw [if_neg haz, if_neg (by omega), hrest]
          show p :: toPasses (cutVals (ps.flatMap PassTWire.numbers) _) = _
          rw [ih]

/-- Nothing is lost of a list that is not cut. -/
theorem cutPasses_of_le {ps : List PassTWire} {k : ℕ} (h : (commaText (ps.map PassTWire.wireText)).length ≤ k) :
    cutPasses ps k = ps := by
  induction ps generalizing k with
  | nil => rfl
  | cons p ps ih =>
      have hend : lineEnd.length = 3 := by decide
      have hlen := congrArg List.length p.wireText_eq
      rw [List.length_append] at hlen
      rw [List.map_cons, commaText_cons, List.length_append] at h
      rw [cutPasses]
      by_cases hps : ps.map PassTWire.wireText = []
      · rw [if_pos hps, hend] at h
        rw [if_neg (by omega), if_neg (by omega), List.map_eq_nil_iff.mp hps]
        rfl
      · rw [if_neg hps, List.length_cons] at h
        rw [if_neg (by omega), if_neg (by omega), ih (by omega)]

/-! ## Numbers that are cut -/

/-- The parts of a number in front: nothing or its sign, or digits, or digits and a point. -/
theorem take_signed (negative : Bool) (m : List UInt8) (k : ℕ) :
    (signText negative ++ m).take k ∈ [[], text "-"] ∨
      ∃ j, 0 < j ∧ (signText negative ++ m).take k = signText negative ++ m.take j := by
  have hminus : text "-" = [byte '-'] := by decide
  cases negative with
  | false =>
      cases k with
      | zero => exact .inl List.mem_cons_self
      | succ k => exact .inr ⟨k + 1, Nat.succ_pos k, rfl⟩
  | true =>
      match k with
      | 0 => exact .inl List.mem_cons_self
      | 1 =>
          refine .inl (List.mem_cons_of_mem _ (List.mem_singleton.mpr ?_))
          rw [hminus]
          rfl
      | k + 2 => exact .inr ⟨k + 1, Nat.succ_pos k, rfl⟩

theorem strtod_nothing : ∀ t ∈ [[], text "-"], strtod t = none := by decide

theorem digits_take {ds : List UInt8} (h : Json.Digits ds) {j : ℕ} (hj : 0 < j) : Json.Digits (ds.take j) := by
  obtain ⟨c, r, rfl⟩ := List.exists_cons_of_ne_nil h.1
  obtain ⟨i, rfl⟩ : ∃ i, j = i + 1 := ⟨j - 1, by omega⟩
  exact ⟨List.cons_ne_nil _ _, fun b hb => h.2 b (List.mem_of_mem_take hb)⟩

theorem printed_whole {x : Double} (h : Whole x) : Printed x.printWhole x := by
  obtain ⟨hfin, n, hn⟩ := h
  have hdigits := digits_decimal n
  refine ⟨(strtod_printWhole hfin hn).1, ?_, fun k hk => ?_⟩
  · rw [Double.printWhole_eq hfin hn]
    cases x.negative with
    | true => exact ⟨byte '-', decimal n, rfl, by decide, by decide, by decide⟩
    | false =>
        obtain ⟨c, r, heq⟩ := List.exists_cons_of_ne_nil hdigits.1
        have hc := hdigits.2 c (heq ▸ List.mem_cons_self)
        exact ⟨c, r, heq, ne_of_isDigit hc (by decide), ne_of_isDigit hc (by decide), ne_of_isDigit hc (by decide)⟩
  · rw [Double.printWhole_eq hfin hn] at hk ⊢
    rcases take_signed x.negative (decimal n) k with hnone | ⟨j, hj, heq⟩
    · exact absurd (strtod_nothing _ hnone) hk
    · rw [heq]
      exact (strtod_whole x.negative (digits_take hdigits hj)).2

/-- The digits of a number with three decimals. -/
theorem printFixed_three {n : ℕ} (hn : n < 2 ^ 52) (negative : Bool) :
    (Double.nearest negative (n / 10 ^ 3)).printFixed 3 =
      signText negative ++ (decimal (n / 1000) ++ byte '.' :: zeroPad 3 (n % 1000)) :=
  printFixed_nearest_div hn (by decide) negative

theorem printed_threeDecimals {x : Double} (h : ThreeDecimals x) : Printed (x.printFixed 3) x := by
  obtain ⟨negative, n, hn, rfl⟩ := h
  have hdigits := digits_decimal (n / 1000)
  have hfrac : ∀ c ∈ zeroPad 3 (n % 1000), isDigit c = true := fun _ => isDigit_of_mem_zeroPad
  refine ⟨(strtod_printFixed hn (by decide) (by decide) negative).1, ?_, fun k hk => ?_⟩
  · rw [printFixed_three hn]
    cases negative with
    | true => exact ⟨byte '-', _, rfl, by decide, by decide, by decide⟩
    | false =>
        obtain ⟨c, r, heq⟩ := List.exists_cons_of_ne_nil hdigits.1
        have hc := hdigits.2 c (heq ▸ List.mem_cons_self)
        refine ⟨c, r ++ byte '.' :: zeroPad 3 (n % 1000), ?_, ne_of_isDigit hc (by decide),
          ne_of_isDigit hc (by decide), ne_of_isDigit hc (by decide)⟩
        rw [heq]
        rfl
  · rw [printFixed_three hn] at hk ⊢
    rcases take_signed negative (decimal (n / 1000) ++ byte '.' :: zeroPad 3 (n % 1000)) k with hnone | ⟨j, hj, heq⟩
    · exact absurd (strtod_nothing _ hnone) hk
    · rw [heq, List.take_append]
      cases hrest : j - (decimal (n / 1000)).length with
      | zero =>
          rw [List.take_zero, List.append_nil]
          exact (strtod_whole negative (digits_take hdigits hj)).2
      | succ i =>
          rw [List.take_succ_cons, List.take_of_length_le (by omega)]
          exact (strtod_point negative hdigits fun c hc => hfrac c (List.mem_of_mem_take hc)).2

theorem PassTWire.Sound.printed {p : PassTWire} (h : p.Sound) : ∀ x ∈ p.numbers, Printed x.1 x.2 := by
  simp only [PassTWire.numbers, List.forall_mem_cons]
  exact ⟨printed_whole h.aos, printed_whole h.los, printed_whole h.peak, printed_threeDecimals h.el,
    printed_threeDecimals h.az, fun _ hx => absurd hx List.not_mem_nil⟩

/-- Of a number only the sign is left or nothing, or zeros behind the point are missing. -/
def Unharmed (shown dropped : List UInt8) : Prop := shown ∈ [[], text "-"] ∨ dropped <:+ text ".000"

theorem replicate_of_digitsValue {ds : List UInt8} (h : ∀ c ∈ ds, isDigit c = true) (hzero : digitsValue ds = 0) :
    ds = List.replicate ds.length (byte '0') := by
  induction ds with
  | nil => rfl
  | cons c ds ih =>
      obtain ⟨hc, hds⟩ := List.forall_mem_cons.mp h
      have hvalue := digitsValue_append [c] ds
      rw [List.singleton_append, hzero] at hvalue
      have hrest : digitsValue ds = 0 := by omega
      have hhead : digitsValue [c] = 0 := by
        have hpow : 0 < 10 ^ ds.length := Nat.pow_pos (by decide)
        rcases Nat.mul_eq_zero.mp (by omega : digitsValue [c] * 10 ^ ds.length = 0) with h | h
        · exact h
        · omega
      have hchar : c = byte '0' := by
        simp only [isDigit, Bool.and_eq_true, decide_eq_true_eq, UInt8.le_iff_toNat_le] at hc
        have hval : c.toNat - 0x30 = 0 := by
          simpa [digitsValue] using hhead
        have hlow : (byte '0').toNat = 0x30 := by decide
        apply UInt8.toNat_inj.mp
        omega
      rw [List.length_cons, List.replicate_succ, ← ih hds hrest, hchar]

/-- Two numbers of three decimals that are equal. -/
theorem nearest_div_inj {m n : ℕ} (hm : m < 2 ^ 52) (hn : n < 2 ^ 52) {negative : Bool}
    (h : Double.nearest negative (m / 10 ^ 3) = Double.nearest negative (n / 10 ^ 3)) : m = n := by
  have htext := congrArg (Double.printFixed 3) h
  rw [printFixed_nearest_div hm (by decide), printFixed_nearest_div hn (by decide)] at htext
  exact fixedDigits_inj (List.append_cancel_left htext)

theorem nearest_div_iff {m n : ℕ} (hn : n < 2 ^ 52) (hm : m ≤ n) (negative : Bool) :
    some (Double.nearest negative (m / 10 ^ 3)) = some (Double.nearest negative (n / 10 ^ 3)) ↔ m = n :=
  ⟨fun h => nearest_div_inj (hm.trans_lt hn) hn (Option.some.inj h), fun h => by rw [h]⟩

/-- At most three digits that are zeros. -/
theorem suffix_zeros_iff {ds : List UInt8} (h : ∀ c ∈ ds, isDigit c = true) (hlen : ds.length ≤ 3) :
    ds <:+ text ".000" ↔ digitsValue ds = 0 := by
  have hfew : ∀ l ≤ 3, List.replicate l (byte '0') <:+ text ".000" := by decide
  have hback : ∀ l ≤ 3, digitsValue ((text ".000").drop (4 - l)) = 0 := by decide
  have hfour : (text ".000").length = 4 := by decide
  refine ⟨fun hsuf => ?_, fun hzero => ?_⟩
  · rw [List.suffix_iff_eq_drop.mp hsuf, hfour]
    exact hback _ hlen
  · rw [replicate_of_digitsValue h hzero]
    exact hfew _ hlen

section
variable {n : ℕ} (hn : n < 2 ^ 52) (negative : Bool)
include hn

/-- A number that is cut in front of its point, or at it. -/
theorem strtod_cut_whole {ds rest : List UInt8} (h : ds ++ rest = decimal (n / 1000)) (hne : ds ≠ []) :
    strtod (signText negative ++ ds) = some (Double.nearest negative (n / 10 ^ 3)) ↔
      rest ++ byte '.' :: zeroPad 3 (n % 1000) <:+ text ".000" := by
  have hall : ∀ c ∈ ds ++ rest, isDigit c = true := h ▸ (digits_decimal (n / 1000)).2
  rw [List.forall_mem_append] at hall
  have hpad : (zeroPad 3 (n % 1000)).length = 3 := length_zeroPad (by decide) (Nat.mod_lt n (by decide))
  have hvalue := congrArg digitsValue h
  rw [digitsValue_append, digitsValue_decimal] at hvalue
  have hpow : 1 ≤ 10 ^ rest.length := Nat.one_le_pow' _ _
  have hle : digitsValue ds * 1 ≤ digitsValue ds * 10 ^ rest.length := Nat.mul_le_mul_left _ hpow
  have hquot : ((digitsValue ds : ℕ) : ℚ) = ((digitsValue ds * 1000 : ℕ) : ℚ) / 10 ^ 3 := by
    push_cast
    ring
  rw [(strtod_whole negative ⟨hne, hall.1⟩).1, hquot, nearest_div_iff hn (by omega)]
  have hfour : (text ".000").length = 4 := by decide
  refine ⟨fun heq => ?_, fun hsuf => ?_⟩
  · have hnil : rest = [] := by
      by_contra hrest
      -- a digit that is missing makes the number ten times smaller
      obtain ⟨l, hl⟩ : ∃ l, rest.length = l + 1 :=
        ⟨rest.length - 1, by have := List.length_pos_of_ne_nil hrest; omega⟩
      have hten : digitsValue ds * 10 ≤ digitsValue ds * 10 ^ rest.length := by
        rw [hl, pow_succ]
        exact Nat.mul_le_mul_left _ (Nat.le_mul_of_pos_left _ (Nat.pow_pos (by decide)))
      have hzero : n / 1000 = 0 := by omega
      have hone : (ds ++ rest).length = 1 := by
        rw [h, hzero]
        rfl
      have hds := List.length_pos_of_ne_nil hne
      rw [List.length_append] at hone
      omega
    have hmod : n % 1000 = 0 := by omega
    have hzeros : ([] : List UInt8) ++ byte '.' :: zeroPad 3 0 = text ".000" := by decide
    rw [hnil, hmod, hzeros]
  · have hlen := hsuf.length_le
    rw [List.length_append, List.length_cons, hpad, hfour] at hlen
    obtain rfl : rest = [] := List.length_eq_zero_iff.mp (by omega)
    have hfrac : zeroPad 3 (n % 1000) <:+ text ".000" := (List.suffix_cons _ _).trans hsuf
    have hzero := (suffix_zeros_iff (fun _ => isDigit_of_mem_zeroPad) hpad.le).mp hfrac
    rw [digitsValue_zeroPad] at hzero
    rw [List.length_nil] at hvalue
    have hnil : digitsValue ([] : List UInt8) = 0 := rfl
    omega

/-- A number that is cut behind its point. -/
theorem strtod_cut_point {ds rest : List UInt8} (h : ds ++ rest = zeroPad 3 (n % 1000)) :
    strtod (signText negative ++ (decimal (n / 1000) ++ byte '.' :: ds)) =
        some (Double.nearest negative (n / 10 ^ 3)) ↔ rest <:+ text ".000" := by
  have hall : ∀ c ∈ ds ++ rest, isDigit c = true := h ▸ fun _ => isDigit_of_mem_zeroPad
  rw [List.forall_mem_append] at hall
  have hlen := congrArg List.length h
  have hpad : (zeroPad 3 (n % 1000)).length = 3 := length_zeroPad (by decide) (Nat.mod_lt n (by decide))
  rw [List.length_append, hpad] at hlen
  have hvalue := congrArg digitsValue h
  rw [digitsValue_append, digitsValue_zeroPad] at hvalue
  have hpow : 10 ^ ds.length * 10 ^ rest.length = 1000 := by
    rw [← pow_add, hlen]
    rfl
  have hwhole : digitsValue (decimal (n / 1000) ++ ds) * 10 ^ rest.length + digitsValue rest = n := by
    calc digitsValue (decimal (n / 1000) ++ ds) * 10 ^ rest.length + digitsValue rest
        = n / 1000 * (10 ^ ds.length * 10 ^ rest.length) +
            (digitsValue ds * 10 ^ rest.length + digitsValue rest) := by
          rw [digitsValue_append, digitsValue_decimal]
          ring
      _ = n := by rw [hpow, hvalue, Nat.div_add_mod']
  have hquot : ((digitsValue (decimal (n / 1000) ++ ds) : ℕ) : ℚ) / 10 ^ ds.length =
      ((digitsValue (decimal (n / 1000) ++ ds) * 10 ^ rest.length : ℕ) : ℚ) / 10 ^ 3 := by
    have hcast : (10 : ℚ) ^ 3 = 10 ^ ds.length * 10 ^ rest.length := by rw [← pow_add, hlen]
    rw [hcast, Nat.cast_mul, Nat.cast_pow, Nat.cast_ofNat, mul_div_mul_right _ _ (by positivity)]
  rw [(strtod_point negative (digits_decimal _) hall.1).1, hquot, nearest_div_iff hn (by omega),
    suffix_zeros_iff hall.2 (by omega)]
  omega

end

/-- **An azimuth that is cut** is missing, or still the same number, when it is unharmed. -/
theorem unharmed_iff {x : Double} (hx : ThreeDecimals x) {shown dropped : List UInt8}
    (h : shown ++ dropped = x.printFixed 3) :
    (strtod shown = none ∨ strtod shown = some x) ↔ Unharmed shown dropped := by
  obtain ⟨negative, n, hn, rfl⟩ := hx
  rw [printFixed_three hn] at h
  have htake : shown =
      (signText negative ++ (decimal (n / 1000) ++ byte '.' :: zeroPad 3 (n % 1000))).take shown.length := by
    rw [← h, List.take_left]
  rcases take_signed negative (decimal (n / 1000) ++ byte '.' :: zeroPad 3 (n % 1000)) shown.length with
    hnone | ⟨j, hj, heq⟩
  · rw [← htake] at hnone
    exact iff_of_true (.inl (strtod_nothing _ hnone)) (.inl hnone)
  · rw [← htake] at heq
    have hdropped : dropped = (decimal (n / 1000) ++ byte '.' :: zeroPad 3 (n % 1000)).drop j := by
      rw [heq, List.append_assoc] at h
      exact List.append_cancel_left ((List.append_cancel_left h).trans (List.take_append_drop j _).symm)
    have hread : strtod shown ≠ none ∧
        (strtod shown = some (Double.nearest negative (n / 10 ^ 3)) ↔ dropped <:+ text ".000") := by
      have hdigits := digits_decimal (n / 1000)
      rw [heq, hdropped, List.take_append, List.drop_append]
      cases hrest : j - (decimal (n / 1000)).length with
      | zero =>
          have hds := digits_take hdigits hj
          rw [List.take_zero, List.append_nil, List.drop_zero]
          refine ⟨?_, strtod_cut_whole hn negative (List.take_append_drop j _) hds.1⟩
          rw [(strtod_whole negative hds).1]
          exact Option.some_ne_none _
      | succ i =>
          have hfrac : ∀ c ∈ (zeroPad 3 (n % 1000)).take i, isDigit c = true := fun c hc =>
            isDigit_of_mem_zeroPad (List.mem_of_mem_take hc)
          rw [List.take_of_length_le (by omega), List.drop_of_length_le (by omega), List.take_succ_cons,
            List.drop_succ_cons, List.nil_append]
          refine ⟨?_, strtod_cut_point hn negative (List.take_append_drop i _)⟩
          rw [(strtod_point negative hdigits hfrac).1]
          exact Option.some_ne_none _
    exact or_congr (iff_of_false hread.1 fun hmem => hread.1 (strtod_nothing _ hmem)) hread.2

end SimpleSatOps.PassSchedule
