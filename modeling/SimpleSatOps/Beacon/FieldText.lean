import SimpleSatOps.Beacon.Cts1

/-!
# The texts of a packet's fields

For every field: how long its text gets, which bytes it leaves out, and what two values with one text share.

* `BeaconField.value_lt` : the range of a field;
* `enumStr_inj`, `fmtMsClock_inj` : the text gives the value back;
* `obcReading`, `fmtCCI32_inj` : the text gives the reading back;
* `length_volts_le` : five characters for a voltage.
-/

namespace SimpleSatOps.Cts1

theorem snprintf_of_lt {n : ℕ} {s : List UInt8} (h : s.length < n) : snprintf n s = s :=
  List.take_of_length_le (Nat.le_sub_one_of_lt h)

/-! ## Numbers -/

theorem foldr_lt (bs : List UInt8) : bs.foldr (fun b n => b.toNat + 256 * n) 0 < 256 ^ bs.length := by
  induction bs with
  | nil => decide
  | cons b bs ih =>
      have hb := b.toNat_lt
      rw [List.foldr_cons, List.length_cons, pow_succ]
      omega

theorem BeaconField.value_lt (f : BeaconField) (payload : List UInt8) : f.value payload < 256 ^ f.width := by
  have hlen : (f.bytes payload).length ≤ f.width := List.length_take_le _ _
  exact (foldr_lt _).trans_le (Nat.pow_le_pow_right (by decide) hlen)

theorem BeaconField.signedValue_bounds {f : BeaconField} (hf : f.width = 4) (payload : List UInt8) :
    -2 ^ 31 ≤ f.signedValue payload ∧ f.signedValue payload < 2 ^ 31 := by
  unfold signedValue
  rw [hf]
  exact ⟨BitVec.le_toInt _, BitVec.toInt_lt⟩

/-! ## Sanitised text -/

theorem length_sanitise_le (data : List UInt8) (outn : ℕ) : (cts1SanitiseText data outn).1.length ≤ outn - 1 := by
  unfold cts1SanitiseText
  split_ifs
  · exact Nat.zero_le _
  · rw [List.length_map]
    exact List.length_take_le _ _

/-! ## Enumerations -/

theorem enumStr_of_none {names : List String} {v : ℕ} (hv : v < 256) (h : names[v]? = none) :
    enumStr names v = decimal v := by
  have hlen : (decimal v).length ≤ 3 := length_decimal_le (by omega)
  unfold enumStr
  rw [h]
  exact snprintf_of_lt (by omega)

theorem enumStr_of_some {names : List String} {v : ℕ} {name : String} (h : names[v]? = some name) :
    enumStr names v = text name := by
  unfold enumStr
  rw [h]

/-- A property of the names and of the numbers holds of every text. -/
theorem enumStr_induction {names : List String} {P : List UInt8 → Prop} (hnames : ∀ name ∈ names, P (text name))
    (hnumber : ∀ v < 256, P (decimal v)) {v : ℕ} (hv : v < 256) : P (enumStr names v) := by
  cases h : names[v]? with
  | none =>
      rw [enumStr_of_none hv h]
      exact hnumber v hv
  | some name =>
      rw [enumStr_of_some h]
      exact hnames name (List.mem_of_getElem? h)

/-- No two names are the same, and none starts with a digit. -/
def Distinct (names : List String) : Prop :=
  (names.map text).Nodup ∧ ∀ name ∈ names, ∃ c ∈ (text name).head?, isDigit c = false

theorem text_ne_decimal {names : List String} (h : Distinct names) {name : String} (hname : name ∈ names) (n : ℕ) :
    text name ≠ decimal n := by
  obtain ⟨c, hc, hdigit⟩ := h.2 name hname
  intro e
  rw [e] at hc
  rw [isDigit_of_mem_decimal (List.mem_of_mem_head? hc)] at hdigit
  exact Bool.noConfusion hdigit

theorem enumStr_inj {names : List String} (h : Distinct names) {v w : ℕ} (hv : v < 256) (hw : w < 256)
    (e : enumStr names v = enumStr names w) : v = w := by
  cases h₁ : names[v]? with
  | none =>
      rw [enumStr_of_none hv h₁] at e
      cases h₂ : names[w]? with
      | none =>
          rw [enumStr_of_none hw h₂] at e
          exact decimal_inj e
      | some name =>
          rw [enumStr_of_some h₂] at e
          exact absurd e.symm (text_ne_decimal h (List.mem_of_getElem? h₂) v)
  | some name =>
      rw [enumStr_of_some h₁] at e
      cases h₂ : names[w]? with
      | none =>
          rw [enumStr_of_none hw h₂] at e
          exact absurd e (text_ne_decimal h (List.mem_of_getElem? h₁) w)
      | some name' =>
          rw [enumStr_of_some h₂] at e
          obtain ⟨hlt₁, rfl⟩ := List.getElem?_eq_some_iff.mp h₁
          obtain ⟨hlt₂, rfl⟩ := List.getElem?_eq_some_iff.mp h₂
          have hv₁ : v < (names.map text).length := by rwa [List.length_map]
          have hv₂ : w < (names.map text).length := by rwa [List.length_map]
          exact (@List.Nodup.getElem_inj_iff _ _ h.1 v hv₁ w hv₂).mp (by simpa using e)

/-! ## Times -/

theorem fmtMsClock_eq {ms : ℕ} (h : ms < 2 ^ 32) :
    fmtMsClock ms =
      delimited [zeroPad 2 (ms / 1000 / 3600), zeroPad 2 (ms / 1000 / 60 % 60), zeroPad 2 (ms / 1000 % 60)]
        [text ":", text ":", text "."] ++ zeroPad 3 (ms % 1000) := by
  have h₁ : (zeroPad 2 (ms / 1000 / 3600)).length ≤ 4 := length_zeroPad_le (by omega) (by omega)
  have h₂ : (zeroPad 2 (ms / 1000 / 60 % 60)).length ≤ 2 := length_zeroPad_le (by omega) (by omega)
  have h₃ : (zeroPad 2 (ms / 1000 % 60)).length ≤ 2 := length_zeroPad_le (by omega) (by omega)
  have h₄ : (zeroPad 3 (ms % 1000)).length ≤ 3 := length_zeroPad_le (by omega) (by omega)
  unfold fmtMsClock
  rw [snprintf_of_lt]
  · simp only [delimited, List.append_assoc, List.nil_append]
  · simp only [List.length_append, text, List.length_map, String.length_toList]
    have hcolon : ":".length = 1 := rfl
    have hpoint : ".".length = 1 := rfl
    omega

theorem delimited_clock (h m s : ℕ) :
    Delimited [zeroPad 2 h, zeroPad 2 m, zeroPad 2 s] [text ":", text ":", text "."] :=
  .cons ⟨byte ':', rfl, not_mem_zeroPad rfl 2 h⟩ <| .cons ⟨byte ':', rfl, not_mem_zeroPad rfl 2 m⟩ <|
    .cons ⟨byte '.', rfl, not_mem_zeroPad rfl 2 s⟩ .nil

/-- A clock shows the milliseconds. -/
theorem fmtMsClock_inj {m n : ℕ} (hm : m < 2 ^ 32) (hn : n < 2 ^ 32) (h : fmtMsClock m = fmtMsClock n) : m = n := by
  rw [fmtMsClock_eq hm, fmtMsClock_eq hn] at h
  obtain ⟨hfields, hms⟩ := delimited_inj (delimited_clock _ _ _) (delimited_clock _ _ _) h
  simp only [List.cons.injEq, and_true] at hfields
  obtain ⟨hh, hmin, hs⟩ := hfields
  have hh := zeroPad_inj hh
  have hmin := zeroPad_inj hmin
  have hs := zeroPad_inj hs
  have hms := zeroPad_inj hms
  omega

theorem length_fmtMsClock_le {ms : ℕ} (h : ms < 2 ^ 32) : (fmtMsClock ms).length ≤ 14 := by
  have h₁ : (zeroPad 2 (ms / 1000 / 3600)).length ≤ 4 := length_zeroPad_le (by omega) (by omega)
  have h₂ : (zeroPad 2 (ms / 1000 / 60 % 60)).length ≤ 2 := length_zeroPad_le (by omega) (by omega)
  have h₃ : (zeroPad 2 (ms / 1000 % 60)).length ≤ 2 := length_zeroPad_le (by omega) (by omega)
  have h₄ : (zeroPad 3 (ms % 1000)).length ≤ 3 := length_zeroPad_le (by omega) (by omega)
  have hcolon : (text ":").length = 1 := rfl
  have hpoint : (text ".").length = 1 := rfl
  rw [fmtMsClock_eq h]
  simp only [delimited, List.length_append, List.length_nil]
  omega

theorem space_not_mem_fmtMsClock (ms : ℕ) : byte ' ' ∉ fmtMsClock ms := by
  intro h
  have h := List.mem_of_mem_take h
  simp only [List.mem_append] at h
  rcases h with (((((h | h) | h) | h) | h) | h) | h
  · exact not_mem_zeroPad rfl _ _ h
  · exact absurd h (by decide)
  · exact not_mem_zeroPad rfl _ _ h
  · exact absurd h (by decide)
  · exact not_mem_zeroPad rfl _ _ h
  · exact absurd h (by decide)
  · exact not_mem_zeroPad rfl _ _ h

/-! ## Temperatures -/

/-- What a temperature field says: nothing at the two ends of its range. -/
def obcReading (v : ℤ) : Option ℤ := if v = 2 ^ 31 - 1 ∨ v = -2 ^ 31 then none else some v

/-- The hundredths of a degree with their sign. -/
def degrees (v : ℤ) : List UInt8 := (if v < 0 then [byte '-'] else []) ++ fixedDigits 2 v.natAbs

theorem length_degrees_le {v : ℤ} (hlo : -2 ^ 31 ≤ v) (hhi : v < 2 ^ 31) : (degrees v).length ≤ 12 := by
  have hlen : (fixedDigits 2 v.natAbs).length ≤ 11 := length_fixedDigits_le (k := 1) (j := 7) (by norm_num; omega)
  unfold degrees
  split_ifs
  · rw [List.length_append, List.length_singleton]
    omega
  · rw [List.nil_append]
    omega

theorem fmtCCI32_eq {v : ℤ} (hlo : -2 ^ 31 ≤ v) (hhi : v < 2 ^ 31) :
    fmtCCI32 v = match obcReading v with
      | none => text "n/a"
      | some v => degrees v ++ text "C" := by
  unfold fmtCCI32 obcReading
  split_ifs with h
  · rfl
  · have hprint : Double.printFixed 2 (Double.nearest (v < 0) (v.natAbs / 10 ^ 2)) = degrees v := by
      rw [printFixed_nearest_div (by omega) (by decide)]
      simp only [degrees, decide_eq_true_eq]
    rw [hprint]
    apply snprintf_of_lt
    have := length_degrees_le hlo hhi
    rw [List.length_append]
    exact Nat.lt_of_le_of_lt (Nat.add_le_add_right this _) (by decide)

theorem degrees_inj {v w : ℤ} (h : degrees v = degrees w) : v = w := by
  have hminus : ∀ n, byte '-' ∉ fixedDigits 2 n := fun n => not_mem_fixedDigits rfl (by decide) 2 n
  unfold degrees at h
  split_ifs at h with hv hw hw
  · have := fixedDigits_inj (List.append_cancel_left h)
    omega
  · rw [List.nil_append] at h
    exact absurd (by rw [← h]; exact List.mem_cons_self) (hminus w.natAbs)
  · rw [List.nil_append] at h
    exact absurd (by rw [h]; exact List.mem_cons_self) (hminus v.natAbs)
  · have := fixedDigits_inj (List.append_cancel_left h)
    omega

theorem fmtCCI32_inj {v w : ℤ} (hv : -2 ^ 31 ≤ v ∧ v < 2 ^ 31) (hw : -2 ^ 31 ≤ w ∧ w < 2 ^ 31)
    (h : fmtCCI32 v = fmtCCI32 w) : obcReading v = obcReading w := by
  rw [fmtCCI32_eq hv.1 hv.2, fmtCCI32_eq hw.1 hw.2] at h
  -- the unit tells a reading from none
  have hlast : ∀ u, text "n/a" ≠ degrees u ++ text "C" := by
    intro u e
    have hunit : byte 'C' ∈ degrees u ++ text "C" := List.mem_append_right _ (by decide)
    rw [← e] at hunit
    exact absurd hunit (by decide)
  cases hv' : obcReading v with
  | none =>
      cases hw' : obcReading w with
      | none => rfl
      | some w' =>
          rw [hv', hw'] at h
          exact absurd h (hlast w')
  | some v' =>
      cases hw' : obcReading w with
      | none =>
          rw [hv', hw'] at h
          exact absurd h.symm (hlast v')
      | some w' =>
          rw [hv', hw'] at h
          rw [degrees_inj (List.append_cancel_right h)]

theorem length_fmtCCI32_le {v : ℤ} (hlo : -2 ^ 31 ≤ v) (hhi : v < 2 ^ 31) : (fmtCCI32 v).length ≤ 13 := by
  rw [fmtCCI32_eq hlo hhi]
  unfold obcReading
  split_ifs
  · decide
  · have := length_degrees_le hlo hhi
    rw [List.length_append]
    exact Nat.add_le_add_right this 1

theorem space_not_mem_fmtCCI32 {v : ℤ} (hlo : -2 ^ 31 ≤ v) (hhi : v < 2 ^ 31) : byte ' ' ∉ fmtCCI32 v := by
  rw [fmtCCI32_eq hlo hhi]
  cases obcReading v with
  | none => decide
  | some w =>
      have hdigits : byte ' ' ∉ fixedDigits 2 w.natAbs := not_mem_fixedDigits rfl (by decide) 2 _
      unfold degrees
      simp only [List.mem_append, not_or]
      refine ⟨⟨?_, hdigits⟩, by decide⟩
      split_ifs
      · decide
      · exact List.not_mem_nil

/-! ## Voltages -/

theorem volts_eq (mV : ℕ) (h : mV < 2 ^ 16) :
    volts mV = fixedDigits 2 (roundEven ((Double.nearest false (mV / 10 ^ 3)).magnitude * 10 ^ 2)) := by
  obtain ⟨hq, hfin⟩ := normal_div (n := mV) (k := 3) (by omega) (by decide)
  unfold volts
  rw [show (1000 : ℚ) = 10 ^ 3 by norm_num, printFixed_nearest hq hfin]
  rfl

theorem length_volts_le {mV : ℕ} (h : mV < 2 ^ 16) : (volts mV).length ≤ 5 := by
  obtain ⟨hq, hfin⟩ := normal_div (n := mV) (k := 3) (by omega) (by decide)
  obtain ⟨-, -, herr⟩ := nearest_error hq hfin false
  rw [volts_eq mV h]
  apply length_fixedDigits_le (k := 1) (j := 1)
  have hmV : (mV : ℚ) ≤ 65535 := by exact_mod_cast Nat.le_of_lt_succ h
  have hmag : (Double.nearest false (mV / 10 ^ 3)).magnitude ≤ 66 := by
    have := (abs_le.mp herr).2
    linarith
  have hnonneg : 0 ≤ (Double.nearest false (mV / 10 ^ 3)).magnitude := by
    unfold Double.magnitude
    split_ifs <;> positivity
  have hround := (roundEven_bounds (q := (Double.nearest false (mV / 10 ^ 3)).magnitude * 10 ^ 2) (by positivity)).2
  have hlt : (roundEven ((Double.nearest false (mV / 10 ^ 3)).magnitude * 10 ^ 2) : ℚ) < (10 ^ 4 : ℕ) := by
    push_cast
    linarith
  exact_mod_cast hlt

end SimpleSatOps.Cts1
