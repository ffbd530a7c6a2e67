import SimpleSatOps.Proto.TcmdCommand

/-!
# Commands that lint clean

* `findings_timeCommand` : the time command has no findings, whatever the clocks;
* `length_le_of_ok`, `exists_parse_of_ok` : a command that lints clean fits, an `SSO+` line that does is parsed;
* `clean_expansion` : it is expanded with every clock, to a telecommand that fits and lints clean.
-/

namespace SimpleSatOps.TcmdCommand
open AgendaLine SsoPseudo TcmdSpec

/-! ## The time command -/

section TimeCommand

/-- The command that sets the clock to `n`, sent at `z`. -/
def timeCommand (n : ℕ) (z : ℤ) : List UInt8 :=
  text "CTS1+set_system_time(" ++ decimal n ++ text ")@tssent=" ++ decimalInt z ++ text "!"

variable {n : ℕ} {z : ℤ}

theorem isDigit_of_mem_decimalInt {c : UInt8} (h : c ∈ decimalInt z) : isDigit c = true ∨ c = byte '-' := by
  unfold decimalInt at h
  split_ifs at h
  · rcases List.mem_cons.mp h with rfl | h
    · exact .inr rfl
    · exact .inl (isDigit_of_mem_decimal h)
  · exact .inl (isDigit_of_mem_decimal h)

/-- The number between the texts is the only part of the command that varies. -/
theorem not_mem_timeCommand {c : UInt8} (hdigit : isDigit c = false) (hsign : c ≠ byte '-')
    (h : c ∉ text "CTS1+set_system_time()@tssent=!") : c ∉ timeCommand n z := by
  have hn : c ∉ decimal n := fun hc => absurd (isDigit_of_mem_decimal hc) (by rw [hdigit]; decide)
  have hz : c ∉ decimalInt z := fun hc => (isDigit_of_mem_decimalInt hc).elim (by rw [hdigit]; decide) hsign
  have hsplit : text "CTS1+set_system_time()@tssent=!" =
      text "CTS1+set_system_time(" ++ text ")@tssent=" ++ text "!" := rfl
  rw [hsplit] at h
  unfold timeCommand
  simp only [List.mem_append, not_or] at h ⊢
  exact ⟨⟨⟨⟨h.1.1, hn⟩, h.1.2⟩, hz⟩, h.2⟩

/-! ### Its parts -/

/-- What stands behind the arguments. -/
def tag (z : ℤ) : List UInt8 := text "@tssent=" ++ (decimalInt z ++ text "!")

theorem timeCommand_eq (n : ℕ) (z : ℤ) :
    timeCommand n z = tcmdPrefix ++ (text "set_system_time" ++ byte '(' :: (decimal n ++ byte ')' :: tag z)) := by
  have hhead : text "CTS1+set_system_time(" = tcmdPrefix ++ (text "set_system_time" ++ [byte '(']) := rfl
  have htag : text ")@tssent=" = byte ')' :: text "@tssent=" := rfl
  unfold timeCommand tag
  rw [hhead, htag]
  simp only [List.append_assoc, List.cons_append, List.nil_append]

theorem drop_timeCommand (n : ℕ) (z : ℤ) : (timeCommand n z).drop tcmdPrefix.length =
    text "set_system_time" ++ byte '(' :: (decimal n ++ byte ')' :: tag z) := by
  rw [timeCommand_eq, List.drop_left]

theorem name_timeCommand (n : ℕ) (z : ℤ) :
    ((timeCommand n z).drop tcmdPrefix.length).takeWhile isNameChar = text "set_system_time" ∧
    ((timeCommand n z).drop tcmdPrefix.length).dropWhile isNameChar = byte '(' :: (decimal n ++ byte ')' :: tag z) := by
  have hname : ∀ c ∈ text "set_system_time", isNameChar c = true := by decide
  have hparen : ¬isNameChar (byte '(') = true := by decide
  rw [drop_timeCommand, List.takeWhile_append_of_pos hname, List.dropWhile_append_of_pos hname,
    List.takeWhile_cons_of_neg hparen, List.dropWhile_cons_of_neg hparen, List.append_nil]
  exact ⟨rfl, rfl⟩

theorem args_timeCommand (n : ℕ) (z : ℤ) :
    (decimal n ++ byte ')' :: tag z).takeWhile (· != byte ')') = decimal n := by
  have hargs : ∀ c ∈ decimal n, (c != byte ')') = true := by
    intro c hc
    rw [bne_iff_ne]
    rintro rfl
    exact absurd (isDigit_of_mem_decimal hc) (by decide)
  rw [List.takeWhile_append_of_pos hargs, List.takeWhile_cons_of_neg (by decide), List.append_nil]

/-! ### Its checks -/

theorem length_timeCommand_le (hn : n < 10 ^ 19) (hz : z.natAbs < 10 ^ 19) : (timeCommand n z).length ≤ 70 := by
  have harg : (decimal n).length ≤ 19 := length_decimal_le hn
  have hsent : (decimalInt z).length ≤ 20 := length_decimalInt_le hz
  have h1 : (text "CTS1+set_system_time(").length = 21 := rfl
  have h2 : (text ")@tssent=").length = 9 := rfl
  have h3 : (text "!").length = 1 := rfl
  unfold timeCommand
  simp only [List.length_append]
  omega

theorem bangFindings_timeCommand (n : ℕ) (z : ℤ) :
    bangFindings ((timeCommand n z).drop tcmdPrefix.length) = [] := by
  have hcount : ((timeCommand n z).drop tcmdPrefix.length).count (byte '!') = 1 := by
    have hn : (decimal n).count (byte '!') = 0 := List.count_eq_zero.mpr fun h =>
      absurd (isDigit_of_mem_decimal h) (by decide)
    have hz : (decimalInt z).count (byte '!') = 0 := List.count_eq_zero.mpr fun h =>
      (isDigit_of_mem_decimalInt h).elim (by decide) (by decide)
    have h1 : (text "set_system_time").count (byte '!') = 0 := by decide
    have h2 : (text "@tssent=").count (byte '!') = 0 := by decide
    have h3 : (text "!").count (byte '!') = 1 := by decide
    have h4 : byte '(' ≠ byte '!' := by decide
    have h5 : byte ')' ≠ byte '!' := by decide
    rw [drop_timeCommand]
    unfold tag
    simp only [List.count_append, List.count_cons_of_ne h4, List.count_cons_of_ne h5, hn, hz, h1, h2, h3]
  unfold bangFindings
  rw [hcount]
  rfl

theorem dangerFindings_timeCommand (n : ℕ) (z : ℤ) : dangerFindings (timeCommand n z) = [] := by
  have hx : byte 'x' ∉ timeCommand n z := not_mem_timeCommand (by decide) (by decide) (by decide)
  unfold dangerFindings
  rw [List.map_eq_nil_iff, List.filter_eq_nil_iff]
  intro b hb
  rw [List.mem_singleton.mp hb, decide_eq_true_eq]
  intro hsub
  exact hx (hsub.subset (by decide))

theorem argOkUint64_decimal (hn : n < 10 ^ 19) : argOkUint64 (decimal n) = true := by
  have hlen : (decimal n).length ≤ 19 := length_decimal_le hn
  have hpos : 1 ≤ (decimal n).length := List.length_pos_of_ne_nil (decimal_ne_nil n)
  unfold argOkUint64
  rw [decide_eq_true hpos, decide_eq_true hlen, Bool.true_and, Bool.true_and, List.all_eq_true]
  exact fun c hc => isDigit_of_mem_decimal hc

theorem specFindings_timeCommand (hn : n < 10 ^ 19) :
    specFindings (row "set_system_time" 1 .operation "u") (decimal n) = [] := by
  have hcomma : byte ',' ∉ decimal n := fun h => absurd (isDigit_of_mem_decimal h) (by decide)
  have hcount : argCount (decimal n) = 1 := by
    unfold argCount
    rw [if_neg (decimal_ne_nil n), List.count_eq_zero.mpr hcomma]
  have hargs : argFindings (text "u") (decimal n) = [] := by
    have hu : argTokenOk (byte 'u') (decimal n) = true := argOkUint64_decimal hn
    have hfind : argFinding (byte 'u') (decimal n) 0 = [] := if_pos hu
    unfold argFindings
    rw [List.splitOn_eq_singleton hcomma]
    exact (List.append_nil _).trans hfind
  unfold specFindings row
  simp only [hcount, hargs]
  rfl

/-- The number of a tag is found wherever the tag stands. -/
theorem agendaParseDirectiveMs_append (key u v : List UInt8) (hkey : key ≠ []) (h : directiveNumber v ≠ none) :
    agendaParseDirectiveMs key (u ++ (key ++ v)) ≠ none := by
  induction u with
  | nil =>
      obtain ⟨c, s, hs⟩ := List.exists_cons_of_ne_nil hkey
      have hpre : key.isPrefixOf (key ++ v) = true := List.isPrefixOf_iff_prefix.mpr (List.prefix_append key v)
      obtain ⟨number, hnumber⟩ := Option.ne_none_iff_exists'.mp h
      rw [List.nil_append]
      have hcons : key ++ v = c :: (s ++ v) := by rw [hs, List.cons_append]
      rw [hcons, agendaParseDirectiveMs, ← hcons, if_pos hpre, List.drop_left, hnumber]
      exact Option.some_ne_none _
  | cons c u ih =>
      rw [List.cons_append, agendaParseDirectiveMs]
      split
      · exact Option.some_ne_none _
      · exact ih

theorem directiveNumber_append (sign : List UInt8) {digits rest : List UInt8}
    (hsign : ((sign ++ (digits ++ rest)).take 1).filter (fun c => c == byte '+' || c == byte '-') = sign)
    (hdigits : (digits ++ rest).takeWhile isDigit = digits) (hne : digits ≠ [])
    (hlen : sign.length + digits.length < 32) : directiveNumber (sign ++ (digits ++ rest)) ≠ none := by
  unfold directiveNumber
  dsimp only
  rw [hsign, List.drop_left, hdigits, if_neg]
  · exact Option.some_ne_none _
  · rintro (hnil | hlong)
    · exact hne hnil
    · omega

theorem directiveNumber_decimalInt (hz : z.natAbs < 10 ^ 19) : directiveNumber (decimalInt z ++ text "!") ≠ none := by
  have hlen : (decimal z.natAbs).length ≤ 19 := length_decimal_le hz
  have hdigits : (decimal z.natAbs ++ text "!").takeWhile isDigit = decimal z.natAbs := by
    rw [List.takeWhile_append_of_pos fun c hc => isDigit_of_mem_decimal hc]
    exact List.append_nil _
  unfold decimalInt
  split_ifs
  · exact directiveNumber_append [byte '-'] rfl hdigits (decimal_ne_nil _)
      (by rw [List.length_singleton]; omega)
  · refine directiveNumber_append [] ?_ hdigits (decimal_ne_nil _) (by rw [List.length_nil]; omega)
    -- the first digit is no sign
    obtain ⟨d, ds, hd⟩ := List.exists_cons_of_ne_nil (decimal_ne_nil z.natAbs)
    have hdigit : isDigit d = true := isDigit_of_mem_decimal (hd ▸ List.mem_cons_self)
    have hplus : d ≠ byte '+' := by
      rintro rfl
      exact absurd hdigit (by decide)
    have hminus : d ≠ byte '-' := by
      rintro rfl
      exact absurd hdigit (by decide)
    rw [hd]
    simp [hplus, hminus]

theorem tagFindings_timeCommand (n : ℕ) (hz : z.natAbs < 10 ^ 19) : tagFindings (timeCommand n z) = [] := by
  have hx : byte 'x' ∉ timeCommand n z := not_mem_timeCommand (by decide) (by decide) (by decide)
  have hexec : ¬text "@tsexec=" <:+: timeCommand n z := fun hsub => hx (hsub.subset (by decide))
  have hsent : agendaParseDirectiveMs (text "@tssent=") (timeCommand n z) ≠ none := by
    have hsplit : timeCommand n z = (tcmdPrefix ++ (text "set_system_time" ++ byte '(' :: (decimal n ++ [byte ')']))) ++
        (text "@tssent=" ++ (decimalInt z ++ text "!")) := by
      rw [timeCommand_eq]
      unfold tag
      simp only [List.append_assoc, List.cons_append, List.nil_append]
    rw [hsplit]
    exact agendaParseDirectiveMs_append _ _ _ (by decide) (directiveNumber_decimalInt hz)
  unfold tagFindings
  rw [if_neg (fun h => hsent h.2), if_neg (fun h => hexec h.1), List.append_nil]

/-- Whatever the clocks, the time command has no findings. -/
theorem findings_timeCommand (hn : n < 10 ^ 19) (hz : z.natAbs < 10 ^ 19) : findings (timeCommand n z) = [] := by
  have hlen := length_timeCommand_le hn hz
  have hlong : lengthFindings (timeCommand n z) = [] := by
    unfold lengthFindings tcmdMaxFullLen tcmdRfMaxLen
    rw [if_neg (by omega), if_neg (by omega)]
  have hpre : ¬((timeCommand n z).length ≤ tcmdPrefix.length ∨ tcmdPrefix.isPrefixOf (timeCommand n z) = false) := by
    rw [timeCommand_eq]
    rintro (hshort | hpre)
    · rw [List.length_append, List.length_append, List.length_cons] at hshort
      omega
    · exact absurd (List.isPrefixOf_iff_prefix.mpr (List.prefix_append tcmdPrefix _)) (by rw [hpre]; decide)
  have hbody : bodyFindings (timeCommand n z) = [] := by
    obtain ⟨hname, htail⟩ := name_timeCommand n z
    have hfind : tcmdSpecFind (text "set_system_time") = some (row "set_system_time" 1 .operation "u") := by rfl
    have hopen : ¬(byte '(' :: (decimal n ++ byte ')' :: tag z)).head? ≠ some (byte '(') := not_not.mpr rfl
    have hclose : byte ')' ∈ byte '(' :: (decimal n ++ byte ')' :: tag z) :=
      List.mem_cons_of_mem _ (List.mem_append_right _ List.mem_cons_self)
    have hargs : ¬tcmdMaxArgsLen ≤ (decimal n).length := by
      have harg : (decimal n).length ≤ 19 := length_decimal_le hn
      unfold tcmdMaxArgsLen
      omega
    unfold bodyFindings
    dsimp only
    rw [bangFindings_timeCommand, hname, htail, List.tail_cons, args_timeCommand, hfind,
      if_neg (show text "set_system_time" ≠ [] by decide), if_neg (show ¬(some _).isNone = true from nofun),
      if_neg hopen, if_neg (not_not.mpr hclose), if_neg hargs, tagFindings_timeCommand n hz]
    simp only [List.nil_append, List.append_nil]
    exact specFindings_timeCommand hn
  have hne : timeCommand n z ≠ [] := by
    rw [timeCommand_eq]
    exact List.cons_ne_nil _ _
  have hplain : telecommand (timeCommand n z) = .ok (timeCommand n z) := by
    rw [telecommand, if_pos]
    rw [timeCommand_eq]
    rfl
  rw [findings, if_neg hne, hplain]
  show telecommandFindings (timeCommand n z) = []
  rw [telecommandFindings, hlong, dangerFindings_timeCommand, if_neg hpre, hbody]
  rfl

end TimeCommand

/-! ## Expansions -/

/-- A clock the linter's length checks are made for. -/
def ThirteenDigits (ms : Int64) : Prop := 10 ^ 12 ≤ ms.toInt ∧ ms.toInt < 10 ^ 13

instance (ms : Int64) : Decidable (ThirteenDigits ms) := by
  unfold ThirteenDigits
  infer_instance

variable {cmd : List UInt8}

theorem severity_of_findings_eq_nil (h : findings cmd = []) : severity cmd = .ok := by
  unfold severity tcmdLintCommand
  rw [h]
  rfl

theorem ok_of_mem_findings (h : severity cmd = .ok) {f : Finding} (hf : f ∈ findings cmd) : f.severity = .ok := by
  have hrank := (rank_severity_lt cmd Nat.one_pos).mp (by rw [h]; exact Nat.one_pos) f hf
  cases hsev : f.severity with
  | ok => rfl
  | warn => rw [hsev] at hrank; exact absurd hrank (by decide)
  | error => rw [hsev] at hrank; exact absurd hrank (by decide)
  | danger => rw [hsev] at hrank; exact absurd hrank (by decide)

/-- A telecommand that lints clean fits into a frame. -/
theorem length_le_of_ok (h : severity cmd = .ok) (hplain : isDirected cmd = false) : cmd.length ≤ tcmdRfMaxLen := by
  by_contra hlong
  have hne : cmd ≠ [] := by
    rintro rfl
    exact hlong (Nat.zero_le _)
  have htel : telecommand cmd = .ok cmd := if_pos hplain
  have hmem : ∀ f ∈ lengthFindings cmd, f ∈ findings cmd := by
    intro f hf
    rw [findings, if_neg hne, htel]
    exact List.mem_append_left _ (List.mem_append_left _ hf)
  unfold lengthFindings at hmem
  split_ifs at hmem
  · exact absurd (ok_of_mem_findings h (hmem _ List.mem_cons_self)) (nofun)
  · exact absurd (ok_of_mem_findings h (hmem _ List.mem_cons_self)) (nofun)
  · omega

theorem ne_ok_of_parse_eq_error {e : Status × List UInt8} (h : parse cmd = .error e) : e.1 ≠ .ok := by
  unfold parse at h
  dsimp only at h
  split_ifs at h
  · cases h; nofun
  · cases h; nofun
  · cases h; nofun
  · cases h; nofun
  · split at h
    · cases h; nofun
    · split_ifs at h
      · cases h; nofun
      · cases h; nofun
  · cases h; nofun

/-- An `SSO+` line that lints clean is parsed. -/
theorem exists_parse_of_ok (h : severity cmd = .ok) (hdir : isDirected cmd = true) : ∃ spec, parse cmd = .ok spec := by
  cases hparse : parse cmd with
  | ok spec => exact ⟨spec, rfl⟩
  | error e =>
      have hne : cmd ≠ [] := by
        rintro rfl
        exact absurd hdir (by decide)
      have hdir' : ¬isDirected cmd = false := by
        rw [hdir]
        nofun
      have hexp : ssoPseudoExpand cmd placeholderClocks 512 160 = ⟨e.1, [], snprintf 160 e.2⟩ := by
        rw [ssoPseudoExpand, if_neg hdir', hparse]
      have htel : telecommand cmd = .error (snprintf 160 e.2) := by
        rw [telecommand, if_neg hdir', hexp]
        exact if_pos (ne_ok_of_parse_eq_error hparse)
      have herr : (⟨.error, snprintf 160 e.2⟩ : Finding) ∈ findings cmd := by
        rw [findings, if_neg hne, htel]
        exact List.mem_cons_self
      exact absurd (ok_of_mem_findings h herr) (nofun)

/-- The clock is set to a number the firmware takes. -/
theorem syncSatTimeText_eq {ctx : Ctx} (hnow : ThirteenDigits ctx.nowMs) :
    ∃ n < 10 ^ 19, syncSatTimeText ctx = timeCommand n ctx.tssentMs.toInt := by
  have hadd : (ctx.nowMs + timeSyncBudgetMs).toInt = ctx.nowMs.toInt + 500 := by
    have hbudget : timeSyncBudgetMs.toInt = 500 := by rfl
    obtain ⟨hlo, hhi⟩ := hnow
    rw [Int64.toInt_add, hbudget]
    exact Int.bmod_eq_of_le (by omega) (by omega)
  refine ⟨(ctx.nowMs.toInt + 500).natAbs, ?_, ?_⟩
  · obtain ⟨hlo, hhi⟩ := hnow
    omega
  · have hpos : ¬ctx.nowMs.toInt + 500 < 0 := by
      obtain ⟨hlo, hhi⟩ := hnow
      omega
    unfold syncSatTimeText timeCommand
    rw [hadd]
    nth_rewrite 1 [decimalInt]
    rw [if_neg hpos]

/-- A command that lints clean is expanded with all clocks, to a telecommand that fits and lints clean. -/
theorem clean_expansion (h : severity cmd = .ok) (ctx : Ctx) (hnow : ThirteenDigits ctx.nowMs) :
    let e := ssoPseudoExpand cmd ctx 512 160
    (e.status = .ok ∨ e.status = .notPseudo) ∧ e.out.length ≤ tcmdRfMaxLen ∧ severity e.out = .ok := by
  intro e
  cases hdir : isDirected cmd with
  | false =>
      have hlen := length_le_of_ok h hdir
      have hout : e = ⟨.notPseudo, cmd, []⟩ := by
        have hcut : snprintf 512 cmd = cmd := List.take_of_length_le (hlen.trans (by decide))
        rw [← hcut]
        exact if_pos hdir
      rw [hout]
      exact ⟨.inr rfl, hlen, h⟩
  | true =>
      obtain ⟨spec, hparse⟩ := exists_parse_of_ok h hdir
      obtain ⟨n, hn, htext⟩ := syncSatTimeText_eq hnow
      have hsent : ctx.tssentMs.toInt.natAbs < 10 ^ 19 := by
        have hlo := ctx.tssentMs.le_toInt
        have hhi := ctx.tssentMs.toInt_lt
        omega
      obtain ⟨hst, hshort⟩ := expand_of_mem (mem_of_parse hparse) ctx (show 71 < 512 by decide)
      have hexp : e = spec.expand ctx 512 := by
        show ssoPseudoExpand cmd ctx 512 160 = _
        rw [ssoPseudoExpand, if_neg (by rw [hdir]; nofun), hparse]
      have hout : e.out = timeCommand n ctx.tssentMs.toInt := by
        rw [hexp, List.mem_singleton.mp (mem_of_parse hparse), ← htext]
        exact List.take_of_length_le ((length_syncSatTimeText_le ctx).trans (by decide))
      refine ⟨.inl ?_, ?_, ?_⟩
      · rw [hexp, hst]
      · rw [hexp]
        exact hshort.trans (by decide)
      · rw [hout]
        exact severity_of_findings_eq_nil (findings_timeCommand hn hsent)

end SimpleSatOps.TcmdCommand
