import SimpleSatOps.Proto.AdcsMag

/-!
# Magnetometer readings in a downlinked log (`mag_reports.c`)

* `Reading` : what `scan_bulk_run` hands to `emit_reading`;
* `classify`, `findI64Back` : what a reading is of, and a time in front of a place;
* `frameVec`, `objectVec`, `genericReading`, `namedReading`, `readAt` : one entry, from its command on;
* `scanFrom`, `scan` : the loop over the entries;
* `scanFrom_skip`, `scanFrom_at` : the loop goes from one key to the next.
-/

namespace SimpleSatOps.MagReports
open AdcsMag Search

/-- `rec_kind_t` -/
inductive RecKind
  | measured | igrf | raw | unresolved
deriving DecidableEq

/-- `meas_basis` -/
inductive Basis
  | tsdone | tssent
deriving DecidableEq

/-- The arguments of `emit_reading` that a log sets. -/
structure Reading where
  kind : RecKind
  v : Vec
  command : List UInt8
  tsSentMs : ℤ
  measMs : ℤ
  measBasis : Basis
  telemFrame : ℤ
deriving DecidableEq

/-! ## The source -/

def tcmdKey : List UInt8 := text "\"tcmd\":\""

def argsKey : List UInt8 := text "\"args\":\""

def doneKey : List UInt8 := text "\"ts_done\":"

def sentKey : List UInt8 := text "\"ts_sent\":"

def endMarker : List UInt8 := text "[END_RESPONSE]"

/-- `classify` -/
def classify (command : List UInt8) (v : Vec) : RecKind :=
  if text "adcs_igrf_magnetic_field_vector" <:+: command then .igrf
  else if text "adcs_magnetic_field_vector" <:+: command ∨ text "adcs_measurements" <:+: command then .measured
  else if text "adcs_get_raw_magnetometer_values" <:+: command then .raw
  else
    match v.kind with
    | .measurements => .measured
    | .raw => .raw
    | .nt => .unresolved

/-- `atoi`: a `long` in the low 32 bits. -/
def atoi (s : List UInt8) : ℤ := ((strtol s).getD 0).bmod (2 ^ 32)

/-- `find_i64_back`, up to the place with `before` left. -/
def findI64Back (buf before key : List UInt8) : ℤ :=
  match lastBefore key before.length 0 none buf with
  | none => 0
  | some best => (strtol ((best.drop key.length).dropWhile fun c => c == byte ' ' || c == byte '\t')).getD 0

def isGeneric (tcmd : List UInt8) : Bool := tcmd == text "adcs_generic_telemetry_request"

def isNamedMag (tcmd : List UInt8) : Bool :=
  decide (text "magnetometer" <:+: tcmd) || decide (text "magnetic_field" <:+: tcmd) ||
    decide (text "measurements" <:+: tcmd)

/-- Where the response of a frame request ends: at the end marker, or at the next command. -/
def frameBound (body : List UInt8) : Option (List UInt8) := (strstr endMarker body).or (strstr tcmdKey body)

/-- The vector in the response of a frame request. -/
def frameVec (body : List UInt8) : Option Vec := do
  let bound ← frameBound body
  guard (bound.length < body.length)
  let tl := body.length - bound.length
  adcsMagParseTelemHex (body.take (if 2048 ≤ tl then 2047 else tl)) 10

/-- A frame request: the frame in its arguments, the bytes behind the header. -/
def genericReading (nend hdrEnd : List UInt8) : Option (RecKind × Vec × ℤ) := do
  let frame :=
    match strstr argsKey nend with
    | some a => if hdrEnd.length < a.length then atoi (a.drop argsKey.length) else -1
    | none => -1
  guard (frame = 151 ∨ frame = 159)
  let v ← frameVec (hdrEnd.drop 1)
  some (if frame = 159 then .igrf else .measured, v, frame)

/-- The vector in the object behind a header. -/
def objectVec (body : List UInt8) : Option Vec := do
  let resp ← strchr (byte '{') body
  let bound ← ((strchr (byte '}') resp).map (·.drop 1)).or (strstr endMarker resp)
  guard (bound.length < resp.length)
  let tl := resp.length - bound.length
  guard (tl < 2048)
  adcsMagParse (resp.take tl)

/-- A named command: the object behind the header. -/
def namedReading (tcmd hdrEnd : List UInt8) : Option (RecKind × Vec × ℤ) :=
  (objectVec (hdrEnd.drop 1)).map fun v => (classify tcmd v, v, 0)

/-- The reading for the two times; none without a positive one. -/
def timed (command : List UInt8) (tsdone tssent : ℤ) (found : RecKind × Vec × ℤ) : Option Reading :=
  let meas := if 0 < tsdone then tsdone else tssent
  if meas ≤ 0 then none
  else
    some { kind := found.1, v := found.2.1, command, tsSentMs := if 0 < tssent then tssent else 0, measMs := meas,
           measBasis := if 0 < tsdone then .tsdone else .tssent, telemFrame := found.2.2 }

/-- The entry whose command starts at `name` and ends at the quote `nend`. -/
def readAt (buf name nend : List UInt8) : Option Reading := do
  let nl := name.length - nend.length
  guard (0 < nl ∧ nl < 64)
  let tcmd := name.take nl
  let hdrEnd ← strchr (byte '}') nend
  guard (isGeneric tcmd ∨ isNamedMag tcmd)
  let found ← if isGeneric tcmd then genericReading nend hdrEnd else namedReading tcmd hdrEnd
  timed tcmd (findI64Back buf nend doneKey) (findI64Back buf nend sentKey) found

/-- `since_ms` and `until_ms`, 0 for no limit. -/
def inWindow (sinceMs untilMs : ℤ) (r : Reading) : Bool :=
  !(sinceMs != 0 && decide (r.measMs < sinceMs)) && !(untilMs != 0 && decide (untilMs < r.measMs))

/-- The loop over the keys, with `skip` bytes still to be passed over. -/
def scanFrom (sinceMs untilMs : ℤ) (buf : List UInt8) : (skip : ℕ) → List UInt8 → List Reading
  | _, [] => []
  | skip + 1, _ :: s => scanFrom sinceMs untilMs buf skip s
  | 0, c :: s =>
      if tcmdKey <+: c :: s then
        match strchr (byte '"') ((c :: s).drop tcmdKey.length) with
        | none => []
        | some nend =>
            ((readAt buf ((c :: s).drop tcmdKey.length) nend).filter (inWindow sinceMs untilMs)).toList ++
              scanFrom sinceMs untilMs buf (tcmdKey.length - 1) s
      else scanFrom sinceMs untilMs buf 0 s

/-- `scan_bulk_run`, from the reassembled text on. -/
def scan (sinceMs untilMs : ℤ) (buf : List UInt8) : List Reading := scanFrom sinceMs untilMs buf 0 buf

/-! ## From one key to the next -/

variable {sinceMs untilMs : ℤ} {buf : List UInt8}

theorem scanFrom_skip {x y : List UInt8} : ∀ {skip : ℕ}, skip ≤ x.length →
    (∀ i, skip ≤ i → i < x.length → ¬ Occurs tcmdKey (x ++ y) i) →
    scanFrom sinceMs untilMs buf skip (x ++ y) = scanFrom sinceMs untilMs buf 0 y := by
  induction x with
  | nil =>
      intro skip hskip _
      obtain rfl : skip = 0 := Nat.le_zero.mp hskip
      rfl
  | cons c x ih =>
      intro skip hskip h
      rw [List.length_cons] at hskip
      cases skip with
      | succ skip => exact ih (by omega) fun i hi hlt => h (i + 1) (by omega) (Nat.succ_lt_succ hlt)
      | zero =>
          have hhere : ¬ tcmdKey <+: c :: (x ++ y) := h 0 le_rfl (Nat.succ_pos _)
          rw [List.cons_append, scanFrom, if_neg hhere]
          exact ih (Nat.zero_le _) fun i _ hlt => h (i + 1) (Nat.zero_le _) (Nat.succ_lt_succ hlt)

theorem strchr_eq_none {c : UInt8} {s : List UInt8} (h : strchr c s = none) : c ∉ s := by
  induction s with
  | nil => exact List.not_mem_nil
  | cons d s ih =>
      rw [strchr] at h
      split_ifs at h with hd
      rw [List.mem_cons, not_or]
      exact ⟨Ne.symm hd, ih h⟩

/-- Without a quote there is no key. -/
theorem scanFrom_of_not_mem {s : List UInt8} (h : byte '"' ∉ s) : scanFrom sinceMs untilMs buf 0 s = [] := by
  have hno : ∀ i, 0 ≤ i → i < s.length → ¬ Occurs tcmdKey (s ++ []) i := by
    intro i _ _ hocc
    rw [List.append_nil] at hocc
    exact h (List.mem_of_mem_drop (hocc.subset (show byte '"' ∈ tcmdKey by decide)))
  have hskip : scanFrom sinceMs untilMs buf 0 (s ++ []) = scanFrom sinceMs untilMs buf 0 [] :=
    scanFrom_skip (Nat.zero_le _) hno
  rwa [List.append_nil] at hskip

/-- The loop at a key whose entry has no other one. -/
theorem scanFrom_at {v t : List UInt8} (hkey : tcmdKey <+: v ++ t) (hlen : tcmdKey.length ≤ v.length)
    (h : ∀ i, 0 < i → i < v.length → ¬ Occurs tcmdKey (v ++ t) i) :
    ∃ o : Option Reading, scanFrom sinceMs untilMs buf 0 (v ++ t) = o.toList ++ scanFrom sinceMs untilMs buf 0 t ∧
      ∀ nend, strchr (byte '"') ((v ++ t).drop tcmdKey.length) = some nend →
        o = (readAt buf ((v ++ t).drop tcmdKey.length) nend).filter (inWindow sinceMs untilMs) := by
  have height : tcmdKey.length = 8 := by decide
  cases v with
  | nil => exact absurd hlen (by rw [height]; decide)
  | cons c v =>
      rw [List.length_cons] at hlen
      rw [List.cons_append, scanFrom, if_pos (show tcmdKey <+: c :: (v ++ t) from hkey), ← List.cons_append]
      cases hq : strchr (byte '"') ((c :: v ++ t).drop tcmdKey.length) with
      | none =>
          have hno : byte '"' ∉ t := by
            intro hmem
            have hdrop : (c :: v ++ t).drop tcmdKey.length = (c :: v).drop tcmdKey.length ++ t :=
              List.drop_append_of_le_length (by rw [List.length_cons]; omega)
            rw [hdrop] at hq
            exact strchr_eq_none hq (List.mem_append_right _ hmem)
          refine ⟨none, ?_, fun nend hnend => absurd hnend (Option.some_ne_none nend).symm⟩
          rw [scanFrom_of_not_mem hno]
          rfl
      | some nend =>
          refine ⟨(readAt buf ((c :: v ++ t).drop tcmdKey.length) nend).filter (inWindow sinceMs untilMs), ?_,
            fun nend' hnend => by rw [Option.some.inj hnend]⟩
          dsimp only
          congr 1
          exact scanFrom_skip (by omega) fun i _ hi => h (i + 1) (Nat.succ_pos i) (Nat.succ_lt_succ hi)

/-! ## Numbers in a text -/

theorem readSign_append {x : List UInt8} (hne : x ≠ []) (y : List UInt8) :
    Double.readSign (x ++ y) = ((Double.readSign x).1, (Double.readSign x).2 ++ y) := by
  obtain ⟨c, x, rfl⟩ := List.exists_cons_of_ne_nil hne
  simp only [List.cons_append, Double.readSign]
  split_ifs <;> rfl

/-- A number ends at a byte that is no part of one. -/
theorem strtol_append {c : UInt8} (hdigit : isDigit c = false) (hspace : isCSpace c = false)
    (hsign : c ≠ byte '-' ∧ c ≠ byte '+') (s t : List UInt8) : strtol (s ++ c :: t) = strtol s := by
  have hdigits : ∀ x : List UInt8, (x ++ c :: t).takeWhile isDigit = x.takeWhile isDigit := by
    intro x
    induction x with
    | nil => rw [List.nil_append, List.takeWhile_cons, hdigit]; rfl
    | cons d x ih => rw [List.cons_append, List.takeWhile_cons, List.takeWhile_cons, ih]
  unfold strtol
  by_cases hblank : s.dropWhile isCSpace = []
  · have hall : ∀ d ∈ s, isCSpace d = true := List.dropWhile_eq_nil_iff.mp hblank
    have hdrop : (s ++ c :: t).dropWhile isCSpace = c :: t := by
      rw [List.dropWhile_append_of_pos hall, List.dropWhile_cons, hspace]
      rfl
    have hread : Double.readSign (c :: t) = (false, c :: t) := by
      rw [Double.readSign, if_neg hsign.1, if_neg hsign.2]
    have hnil : (c :: t).takeWhile isDigit = [] := hdigits []
    have hempty : Double.readSign [] = (false, []) := rfl
    simp only [hdrop, hblank, hread, hempty, hnil, List.takeWhile_nil]
  · have hdrop : (s ++ c :: t).dropWhile isCSpace = s.dropWhile isCSpace ++ c :: t := by
      rw [List.dropWhile_append, if_neg (by simpa using hblank)]
    simp only [hdrop, readSign_append hblank, hdigits]

end SimpleSatOps.MagReports
