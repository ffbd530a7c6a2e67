import SimpleSatOps.Beacon.FieldText

/-!
# What a line of the panel says

* `BeaconReading`, `TcmdReading`, `logReading` : the values a line shows;
* `beaconBasicSummary_eq`, `tcmdResponseSummary_eq`, `logMessageSummary_eq` : the lines are written from them;
* `panelReading` : what a packet shows, if the detector of its type takes it;
* `cts1RxPanelSummary_eq_iff` : two lines are the same when they show the same.
-/

namespace SimpleSatOps.Cts1

/-- `RX_LAST_SUMMARY_MAX`. -/
abbrev rxLastSummaryMax : ℕ := 160

/-! ## The beacon -/

/-- The values in the line of a beacon. -/
structure BeaconReading where
  name : List UInt8
  state : ℕ
  epsMode : ℕ
  volts : List UInt8
  percent : ℕ
  obc : Option ℤ
  uptime : ℕ
  count : ℕ
  message : List UInt8
deriving DecidableEq

def beaconReading (payload : List UInt8) : BeaconReading where
  name := (cts1SanitiseText (BeaconField.satelliteName.bytes payload) 5).1
  state := BeaconField.cts1OperationState.value payload
  epsMode := BeaconField.epsModeEnum.value payload
  volts := volts (BeaconField.epsBatteryVoltageMV.value payload)
  percent := BeaconField.epsBatteryPercent.value payload
  obc := obcReading (BeaconField.obcTemperatureCC.signedValue payload)
  uptime := BeaconField.uptimeMs.value payload
  count := BeaconField.totalBeaconCountSinceBoot.value payload
  message := (cts1SanitiseText (BeaconField.friendlyMessage.bytes payload) 43).1

/-- The text of a temperature. -/
def obcText : Option ℤ → List UInt8
  | none => text "n/a"
  | some v => degrees v ++ text "C"

theorem obcText_obcReading {v : ℤ} (hv : -2 ^ 31 ≤ v ∧ v < 2 ^ 31) : obcText (obcReading v) = fmtCCI32 v := by
  rw [fmtCCI32_eq hv.1 hv.2]
  cases obcReading v <;> rfl

namespace BeaconReading
variable (r : BeaconReading)

/-- The values behind the name. -/
def fields : List (List UInt8) :=
  [cts1StateStr r.state, epsModeStr r.epsMode, r.volts, decimal r.percent, obcText r.obc, fmtMsClock r.uptime,
    decimal r.count]

def line : List UInt8 :=
  r.name ++ (text " st=" ++ (delimited r.fields
    [text " eps=", text " batt=", text "V/", text "% obc=", text " up=", text " cnt=", text " \""] ++
      (r.message ++ text "\"")))

end BeaconReading

section
variable (payload : List UInt8)

theorem state_lt : (beaconReading payload).state < 256 :=
  (BeaconField.cts1OperationState.value_lt payload).trans_le (by decide)

theorem epsMode_lt : (beaconReading payload).epsMode < 256 :=
  (BeaconField.epsModeEnum.value_lt payload).trans_le (by decide)

theorem percent_lt : (beaconReading payload).percent < 256 :=
  (BeaconField.epsBatteryPercent.value_lt payload).trans_le (by decide)

theorem uptime_lt : (beaconReading payload).uptime < 2 ^ 32 :=
  (BeaconField.uptimeMs.value_lt payload).trans_le (by decide)

theorem count_lt : (beaconReading payload).count < 2 ^ 32 :=
  (BeaconField.totalBeaconCountSinceBoot.value_lt payload).trans_le (by decide)

theorem obc_bounds : -2 ^ 31 ≤ BeaconField.obcTemperatureCC.signedValue payload ∧
    BeaconField.obcTemperatureCC.signedValue payload < 2 ^ 31 :=
  BeaconField.signedValue_bounds (by decide) payload

theorem obcText_beaconReading :
    obcText (beaconReading payload).obc = fmtCCI32 (BeaconField.obcTemperatureCC.signedValue payload) :=
  obcText_obcReading (obc_bounds payload)

end

/-! ### The texts of the values -/

/-- The texts of an enumeration are short, and hold no space. -/
structure Short (n : ℕ) (t : List UInt8) : Prop where
  length_le : t.length ≤ n
  ne_nil : t ≠ []
  space : byte ' ' ∉ t

instance (n : ℕ) (t : List UInt8) : Decidable (Short n t) :=
  decidable_of_iff (t.length ≤ n ∧ t ≠ [] ∧ byte ' ' ∉ t)
    ⟨fun h => ⟨h.1, h.2.1, h.2.2⟩, fun h => ⟨h.length_le, h.ne_nil, h.space⟩⟩

theorem enumStr_short {names : List String} {n : ℕ} (hn : 3 ≤ n) (h : ∀ name ∈ names, Short n (text name)) {v : ℕ}
    (hv : v < 256) : Short n (enumStr names v) := by
  refine enumStr_induction (P := Short n) h (fun v hv => ?_) hv
  have hlen : (decimal v).length ≤ 3 := length_decimal_le (by omega)
  exact ⟨hlen.trans hn, decimal_ne_nil v, not_mem_decimal (by decide) v⟩

theorem cts1StateStr_short {v : ℕ} (hv : v < 256) : Short 13 (cts1StateStr v) :=
  enumStr_short (by decide) (by decide) hv

theorem epsModeStr_short {v : ℕ} (hv : v < 256) : Short 9 (epsModeStr v) :=
  enumStr_short (by decide) (by decide) hv

theorem cts1StateStr_inj {v w : ℕ} (hv : v < 256) (hw : w < 256) (h : cts1StateStr v = cts1StateStr w) : v = w :=
  enumStr_inj (by unfold Distinct; decide) hv hw h

theorem epsModeStr_inj {v w : ℕ} (hv : v < 256) (hw : w < 256) (h : epsModeStr v = epsModeStr w) : v = w :=
  enumStr_inj (by unfold Distinct; decide) hv hw h

theorem length_volts_beaconReading_le (payload : List UInt8) : (beaconReading payload).volts.length ≤ 5 :=
  length_volts_le ((BeaconField.epsBatteryVoltageMV.value_lt payload).trans_le (by decide))

theorem not_mem_volts (payload : List UInt8) : byte 'V' ∉ (beaconReading payload).volts := by
  have hlt := (BeaconField.epsBatteryVoltageMV.value_lt payload).trans_le (by decide : _ ≤ 2 ^ 16)
  show byte 'V' ∉ volts _
  rw [volts_eq _ hlt]
  exact not_mem_fixedDigits (by decide) (by decide) 2 _

theorem delimited_fields (payload : List UInt8) : Delimited (beaconReading payload).fields
    [text " eps=", text " batt=", text "V/", text "% obc=", text " up=", text " cnt=", text " \""] :=
  .cons ⟨byte ' ', rfl, (cts1StateStr_short (state_lt payload)).space⟩ <|
    .cons ⟨byte ' ', rfl, (epsModeStr_short (epsMode_lt payload)).space⟩ <|
    .cons ⟨byte 'V', rfl, not_mem_volts payload⟩ <|
    .cons ⟨byte '%', rfl, not_mem_decimal (by decide) _⟩ <|
    .cons ⟨byte ' ', rfl, by
      rw [obcText_beaconReading]
      exact space_not_mem_fmtCCI32 (obc_bounds payload).1 (obc_bounds payload).2⟩ <|
    .cons ⟨byte ' ', rfl, space_not_mem_fmtMsClock _⟩ <|
    .cons ⟨byte ' ', rfl, not_mem_decimal (by decide) _⟩ .nil

/-! ### The line -/

theorem length_line_lt (payload : List UInt8) : (beaconReading payload).line.length < rxLastSummaryMax := by
  have hname : (beaconReading payload).name.length ≤ 4 := length_sanitise_le _ 5
  have hmessage : (beaconReading payload).message.length ≤ 42 := length_sanitise_le _ 43
  have hstate := (cts1StateStr_short (state_lt payload)).length_le
  have heps := (epsModeStr_short (epsMode_lt payload)).length_le
  have hvolts := length_volts_beaconReading_le payload
  have hpercent : (decimal (beaconReading payload).percent).length ≤ 3 :=
    length_decimal_le ((percent_lt payload).trans_le (by decide))
  have hobc : (obcText (beaconReading payload).obc).length ≤ 13 := by
    rw [obcText_beaconReading]
    exact length_fmtCCI32_le (obc_bounds payload).1 (obc_bounds payload).2
  have huptime := length_fmtMsClock_le (uptime_lt payload)
  have hcount : (decimal (beaconReading payload).count).length ≤ 10 :=
    length_decimal_le ((count_lt payload).trans_le (by decide))
  have htexts : (text " st=").length = 4 ∧ (text " eps=").length = 5 ∧ (text " batt=").length = 6 ∧
      (text "V/").length = 2 ∧ (text "% obc=").length = 6 ∧ (text " up=").length = 4 ∧ (text " cnt=").length = 5 ∧
      (text " \"").length = 2 ∧ (text "\"").length = 1 := by decide
  obtain ⟨h₁, h₂, h₃, h₄, h₅, h₆, h₇, h₈, h₉⟩ := htexts
  simp only [BeaconReading.line, BeaconReading.fields, delimited, List.length_append, List.length_nil, h₁, h₂, h₃, h₄,
    h₅, h₆, h₇, h₈, h₉, rxLastSummaryMax]
  omega

theorem beaconBasicSummary_eq {payload : List UInt8} (h : beaconIsBasic payload = true) :
    beaconBasicSummary payload rxLastSummaryMax = (beaconReading payload).line := by
  have hline : (beaconReading payload).line.length < rxLastSummaryMax := length_line_lt payload
  rw [← snprintf_of_lt hline, BeaconReading.line, BeaconReading.fields, obcText_beaconReading]
  simp only [beaconBasicSummary, h, Bool.not_true, Bool.false_eq_true, if_false, delimited, List.append_assoc,
    List.nil_append]
  rfl

/-- A name of at most four characters in front of its marker. -/
theorem marker_nil {u x y : List UInt8} (hu : u.length ≤ 4) (hx : x.head? ≠ some (byte ' '))
    (h : text " st=" ++ x = u ++ (text " st=" ++ y)) : u = [] := by
  have htext : text " st=" = [byte ' ', byte 's', byte 't', byte '='] := by decide
  rw [htext] at h
  match u with
  | [] => rfl
  | [_] => exact absurd (List.cons.inj (List.cons.inj h).2).1 (by decide)
  | [_, _] => exact absurd (List.cons.inj (List.cons.inj (List.cons.inj h).2).2).1 (by decide)
  | [_, _, _] => exact absurd (List.cons.inj (List.cons.inj (List.cons.inj (List.cons.inj h).2).2).2).1 (by decide)
  | [_, _, _, _] =>
      have hrest := (List.cons.inj (List.cons.inj (List.cons.inj (List.cons.inj h).2).2).2).2
      exact absurd (congrArg List.head? hrest) hx
  | _ :: _ :: _ :: _ :: _ :: _ => exact absurd hu (by simp)

theorem name_inj {a b x y : List UInt8} (ha : a.length ≤ 4) (hb : b.length ≤ 4) (hx : x.head? ≠ some (byte ' '))
    (hy : y.head? ≠ some (byte ' ')) (h : a ++ (text " st=" ++ x) = b ++ (text " st=" ++ y)) : a = b ∧ x = y := by
  have hab : a = b := by
    rcases List.append_eq_append_iff.mp h with ⟨u, rfl, hu⟩ | ⟨u, rfl, hu⟩
    · rw [List.length_append] at hb
      rw [marker_nil (by omega) hx hu, List.append_nil]
    · rw [List.length_append] at ha
      rw [marker_nil (by omega) hy hu, List.append_nil]
  subst hab
  exact ⟨rfl, List.append_cancel_left (List.append_cancel_left h)⟩

theorem head_fields (payload rest : List UInt8) : (delimited (beaconReading payload).fields
    [text " eps=", text " batt=", text "V/", text "% obc=", text " up=", text " cnt=", text " \""] ++ rest).head? ≠
      some (byte ' ') := by
  have hshort := cts1StateStr_short (state_lt payload)
  obtain ⟨c, t, hstate⟩ := List.exists_cons_of_ne_nil hshort.ne_nil
  simp only [BeaconReading.fields, delimited, hstate, List.cons_append, List.head?_cons]
  intro hc
  exact hshort.space (hstate ▸ Option.some.inj hc ▸ List.mem_cons_self)

/-- **The line of a beacon** gives the values back. -/
theorem beaconReading_inj {p q : List UInt8} (h : (beaconReading p).line = (beaconReading q).line) :
    beaconReading p = beaconReading q := by
  obtain ⟨hname, hrest⟩ := name_inj (length_sanitise_le _ 5) (length_sanitise_le _ 5) (head_fields p _)
    (head_fields q _) h
  obtain ⟨hfields, hmessage⟩ := delimited_inj (delimited_fields p) (delimited_fields q) hrest
  simp only [BeaconReading.fields, List.cons.injEq, and_true] at hfields
  obtain ⟨hstate, heps, hvolts, hpercent, hobc, huptime, hcount⟩ := hfields
  rw [obcText_beaconReading, obcText_beaconReading] at hobc
  have hstate := cts1StateStr_inj (state_lt p) (state_lt q) hstate
  have heps := epsModeStr_inj (epsMode_lt p) (epsMode_lt q) heps
  have hobc := fmtCCI32_inj (obc_bounds p) (obc_bounds q) hobc
  have huptime := fmtMsClock_inj (uptime_lt p) (uptime_lt q) huptime
  exact BeaconReading.mk.injEq .. ▸ ⟨hname, hstate, heps, hvolts, decimal_inj hpercent, hobc, huptime,
    decimal_inj hcount, List.append_cancel_right hmessage⟩

/-! ## Responses -/

/-- The values in the line of a response. -/
structure TcmdReading where
  seq : ℕ
  maxSeq : ℕ
  code : ℕ
  shown : List UInt8
deriving DecidableEq

def tcmdReading (payload : List UInt8) : TcmdReading where
  seq := (payload.getD 12 0).toNat
  maxSeq := (payload.getD 13 0).toNat
  code := (payload.getD 9 0).toNat
  shown := (cts1SanitiseText (cstr (payload.drop tcmdResponseHeaderSize)) 96).1

/-- The text of a response code. -/
def codeText (code : ℕ) : List UInt8 := decimal code ++ if code = 0 then text "(OK)" else []

def TcmdReading.line (r : TcmdReading) : List UInt8 :=
  delimited [text "[" ++ decimal r.seq, decimal r.maxSeq, codeText r.code] [text "/", text "] code=", text " '"] ++
    (r.shown ++ text "'")

theorem codeText_inj {m n : ℕ} (h : codeText m = codeText n) : m = n := by
  have hopen : ∀ n, byte '(' ∉ decimal n := not_mem_decimal (by decide)
  have hok : byte '(' ∈ text "(OK)" := by decide
  unfold codeText at h
  split_ifs at h with hm hn hn
  · rw [hm, hn]
  · rw [List.append_nil] at h
    exact absurd (h ▸ List.mem_append_right _ hok) (hopen n)
  · rw [List.append_nil] at h
    exact absurd (h.symm ▸ List.mem_append_right _ hok) (hopen m)
  · rw [List.append_nil, List.append_nil] at h
    exact decimal_inj h

theorem space_not_mem_codeText (n : ℕ) : byte ' ' ∉ codeText n := by
  unfold codeText
  rw [List.mem_append, not_or]
  refine ⟨not_mem_decimal (by decide) n, ?_⟩
  split_ifs <;> decide

theorem delimited_tcmd (r : TcmdReading) : Delimited
    [text "[" ++ decimal r.seq, decimal r.maxSeq, codeText r.code] [text "/", text "] code=", text " '"] :=
  .cons ⟨byte '/', rfl, by
    rw [List.mem_append, not_or]
    exact ⟨by decide, not_mem_decimal (by decide) _⟩⟩ <|
  .cons ⟨byte ']', rfl, not_mem_decimal (by decide) _⟩ <|
  .cons ⟨byte ' ', rfl, space_not_mem_codeText _⟩ .nil

/-- **The line of a response** gives the values back. -/
theorem TcmdReading.line_inj {r s : TcmdReading} (h : r.line = s.line) : r = s := by
  obtain ⟨hfields, hshown⟩ := delimited_inj (delimited_tcmd r) (delimited_tcmd s) h
  simp only [List.cons.injEq, and_true] at hfields
  obtain ⟨hseq, hmax, hcode⟩ := hfields
  exact TcmdReading.mk.injEq .. ▸ ⟨decimal_inj (List.append_cancel_left hseq), decimal_inj hmax, codeText_inj hcode,
    List.append_cancel_right hshown⟩

theorem length_codeText_le {n : ℕ} (h : n < 256) : (codeText n).length ≤ 7 := by
  have hlen : (decimal n).length ≤ 3 := length_decimal_le (h.trans_le (by decide))
  have hok : (text "(OK)").length = 4 := by decide
  unfold codeText
  rw [List.length_append]
  split_ifs
  · omega
  · rw [List.length_nil]
    omega

theorem length_tcmdReading_lt (payload : List UInt8) : (tcmdReading payload).line.length < rxLastSummaryMax := by
  have hshown : (tcmdReading payload).shown.length ≤ 95 := length_sanitise_le _ 96
  have hbyte : ∀ b : UInt8, (decimal b.toNat).length ≤ 3 := fun b =>
    length_decimal_le (b.toNat_lt.trans_le (by decide))
  have hseq : (decimal (tcmdReading payload).seq).length ≤ 3 := hbyte _
  have hmax : (decimal (tcmdReading payload).maxSeq).length ≤ 3 := hbyte _
  have hcode : (codeText (tcmdReading payload).code).length ≤ 7 := length_codeText_le (UInt8.toNat_lt _)
  have htexts : (text "[").length = 1 ∧ (text "/").length = 1 ∧ (text "] code=").length = 7 ∧
      (text " '").length = 2 ∧ (text "'").length = 1 := by decide
  obtain ⟨h₁, h₂, h₃, h₄, h₅⟩ := htexts
  simp only [TcmdReading.line, delimited, List.length_append, List.length_nil, h₁, h₂, h₃, h₄, h₅, rxLastSummaryMax]
  omega

theorem tcmdResponseSummary_eq {payload : List UInt8} (h : tcmdResponseIs payload = true) :
    tcmdResponseSummary payload rxLastSummaryMax = (tcmdReading payload).line := by
  rw [← snprintf_of_lt (length_tcmdReading_lt payload)]
  simp only [tcmdResponseSummary, h, Bool.not_true, Bool.false_eq_true, if_false, TcmdReading.line, codeText,
    tcmdReading, delimited, List.append_assoc, List.nil_append]
  rfl

/-! ## Log messages -/

/-- What a line has room for of a log message and the quote behind it. -/
def logReading (payload : List UInt8) : List UInt8 :=
  ((cts1SanitiseText (payload.drop 1) (logMessageMaxData + 1)).1 ++ text "'").take (rxLastSummaryMax - 2)

theorem length_of_truncated {data : List UInt8} {outn : ℕ} (hn : outn ≠ 0)
    (h : (cts1SanitiseText data outn).2 = true) : (cts1SanitiseText data outn).1.length = outn - 1 := by
  rw [cts1SanitiseText, if_neg hn] at h ⊢
  rw [List.length_map, List.length_take]
  exact Nat.min_eq_left (of_decide_eq_true h).le

theorem logMessageSummary_eq {payload : List UInt8} (h : logMessageIs payload = true) :
    logMessageSummary payload rxLastSummaryMax = text "'" ++ logReading payload := by
  have hquote : text "'" = [byte '\''] := by decide
  have hone : rxLastSummaryMax - 1 = rxLastSummaryMax - 2 + 1 := by decide
  have hdots : ∀ t : List UInt8 × Bool, (t.2 = true → rxLastSummaryMax - 2 ≤ t.1.length) →
      (t.1 ++ (text "'" ++ if t.2 then text "..." else [])).take (rxLastSummaryMax - 2) =
        (t.1 ++ text "'").take (rxLastSummaryMax - 2) := by
    rintro ⟨t, cut⟩ hlen
    cases cut with
    | false => rw [if_neg Bool.false_ne_true, List.append_nil]
    | true => rw [List.take_append_of_le_length (hlen rfl), List.take_append_of_le_length (hlen rfl)]
  have hlong := hdots (cts1SanitiseText (payload.drop 1) (logMessageMaxData + 1)) fun hcut => by
    rw [length_of_truncated (by decide) hcut]
    decide
  simp only [logMessageSummary, h, Bool.not_true, Bool.false_eq_true, if_false, snprintf, List.append_assoc]
  rw [logReading, ← hlong, hquote, hone, List.singleton_append, List.take_succ_cons]
  rfl

/-! ## The panel -/

/-- The values in a line of the panel. -/
inductive PanelReading
  | beacon (r : BeaconReading)
  | tcmd (r : TcmdReading)
  | log (shown : List UInt8)
deriving DecidableEq

def PanelReading.line : PanelReading → List UInt8
  | beacon r => r.line
  | tcmd r => r.line
  | log shown => text "'" ++ shown

/-- What the bytes show as a packet of a type; `none` if the detector refuses them, or there is none. -/
def panelReading (packetType : UInt8) (packet : List UInt8) : Option PanelReading :=
  if packetType = beaconBasic then if beaconIsBasic packet then some (.beacon (beaconReading packet)) else none
  else if packetType = tcmdResponse then if tcmdResponseIs packet then some (.tcmd (tcmdReading packet)) else none
  else if packetType = logMessage then if logMessageIs packet then some (.log (logReading packet)) else none
  else none

theorem PanelReading.line_ne_nil (r : PanelReading) : r.line ≠ [] := by
  have hst : text " st=" ≠ [] := by decide
  have hopen : text "[" ≠ [] := by decide
  have hquote : text "'" ≠ [] := by decide
  cases r with
  | beacon r => simp [line, BeaconReading.line, hst]
  | tcmd r => simp [line, TcmdReading.line, delimited, hopen]
  | log shown => simp [line, hquote]

/-- The line is written from the values. -/
theorem cts1RxPanelSummary_eq {rsErrs : ℤ} (h : rsErrs ≠ -2) (packetType : UInt8) (packet : List UInt8) :
    cts1RxPanelSummary packet packetType rsErrs rxLastSummaryMax =
      (panelReading packetType packet).elim [] PanelReading.line := by
  rw [cts1RxPanelSummary, if_neg h, panelReading]
  split_ifs with hbeacon his htcmd his hlog his
  · exact beaconBasicSummary_eq his
  · simp [beaconBasicSummary, his]
  · exact tcmdResponseSummary_eq his
  · simp [tcmdResponseSummary, his]
  · exact logMessageSummary_eq his
  · simp [logMessageSummary, his]
  · rfl

theorem panelReading_inj {packetType : UInt8} {p q : List UInt8} {r s : PanelReading}
    (hp : panelReading packetType p = some r) (hq : panelReading packetType q = some s) (h : r.line = s.line) :
    r = s := by
  rw [panelReading] at hp hq
  by_cases hbeacon : packetType = beaconBasic
  · rw [if_pos hbeacon, Option.ite_none_right_eq_some] at hp hq
    obtain ⟨-, hp⟩ := hp
    obtain ⟨-, hq⟩ := hq
    obtain rfl := Option.some.inj hp
    obtain rfl := Option.some.inj hq
    exact congrArg PanelReading.beacon (beaconReading_inj h)
  rw [if_neg hbeacon] at hp hq
  by_cases htcmd : packetType = tcmdResponse
  · rw [if_pos htcmd, Option.ite_none_right_eq_some] at hp hq
    obtain ⟨-, hp⟩ := hp
    obtain ⟨-, hq⟩ := hq
    obtain rfl := Option.some.inj hp
    obtain rfl := Option.some.inj hq
    exact congrArg PanelReading.tcmd (TcmdReading.line_inj h)
  rw [if_neg htcmd, Option.ite_none_right_eq_some, Option.ite_none_right_eq_some] at hp hq
  obtain ⟨-, -, hp⟩ := hp
  obtain ⟨-, -, hq⟩ := hq
  obtain rfl := Option.some.inj hp
  obtain rfl := Option.some.inj hq
  exact congrArg PanelReading.log (List.append_cancel_left h)

/-- **Two lines of one type** are the same when they show the same. -/
theorem cts1RxPanelSummary_eq_iff {rsErrs : ℤ} (h : rsErrs ≠ -2) (packetType : UInt8) (p q : List UInt8) :
    cts1RxPanelSummary p packetType rsErrs rxLastSummaryMax = cts1RxPanelSummary q packetType rsErrs rxLastSummaryMax ↔
      panelReading packetType p = panelReading packetType q := by
  rw [cts1RxPanelSummary_eq h, cts1RxPanelSummary_eq h]
  constructor
  · intro heq
    cases hp : panelReading packetType p with
    | none =>
        cases hq : panelReading packetType q with
        | none => rfl
        | some s =>
            rw [hp, hq] at heq
            exact absurd heq.symm s.line_ne_nil
    | some r =>
        cases hq : panelReading packetType q with
        | none =>
            rw [hp, hq] at heq
            exact absurd heq r.line_ne_nil
        | some s =>
            rw [hp, hq] at heq
            rw [panelReading_inj hp hq heq]
  · intro heq
    rw [heq]

end SimpleSatOps.Cts1
