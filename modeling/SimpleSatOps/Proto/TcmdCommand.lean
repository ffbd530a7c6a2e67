import SimpleSatOps.Proto.AgendaLine
import SimpleSatOps.Proto.SsoPseudo
import SimpleSatOps.Proto.TcmdSpec

/-!
# Linting one telecommand

* `findings` : the problems `tcmd_lint_command` flags, in order;
* `flag`, `tcmdLintCommand` : the worst severity and the message they are collapsed to;
* `severity_eq_danger_iff`, `severity_eq_error_iff` : what a severity says about the findings.
-/

namespace SimpleSatOps.TcmdCommand
open AgendaLine SsoPseudo TcmdSpec

/-- `tcmd_lint_severity_t`. -/
inductive Severity where
  | ok | warn | error | danger
deriving DecidableEq

/-- The value of the enumerator. -/
def Severity.rank : Severity → ℕ
  | .ok => 0
  | .warn => 1
  | .error => 2
  | .danger => 3

/-- The worse of two severities. -/
def raise (worst sev : Severity) : Severity := if worst.rank < sev.rank then sev else worst

/-- One call of `flag`. -/
structure Finding where
  severity : Severity
  text : List UInt8
deriving DecidableEq

/-- `flag`: the message in a buffer of `cap` bytes and the worst severity after one more finding. -/
def flag (cap : ℕ) (s : List UInt8 × Severity) (f : Finding) : List UInt8 × Severity :=
  let worst := raise s.2 f.severity
  if cap = 0 then (s.1, worst)
  else
    let msg := if 0 < s.1.length ∧ s.1.length + 2 < cap then s.1 ++ text "; " else s.1
    (msg ++ f.text.take (cap - 1 - msg.length), worst)

/-! ## Arguments -/

/-- `arg_ok_uint64`. -/
def argOkUint64 (s : List UInt8) : Bool := 1 ≤ s.length && s.length ≤ 19 && s.all isDigit

/-- `arg_ok_int64`. -/
def argOkInt64 (s : List UInt8) : Bool :=
  s ≠ [] && (if s.head? = some (byte '-') then s.tail else s).all isDigit

/-- The loop of `arg_ok_double`. -/
def doubleScan (first seenDot : Bool) : List UInt8 → Bool
  | [] => true
  | c :: s =>
    if first && c == byte '-' then doubleScan false seenDot s
    else if c == byte '.' && !seenDot && !first && s ≠ [] then doubleScan false true s
    else isDigit c && doubleScan false seenDot s

/-- `arg_ok_double`. -/
def argOkDouble (s : List UInt8) : Bool := s ≠ [] && doubleScan true false s

/-- The loop of `arg_ok_hex`; `odd` says that half a byte has been read. -/
def hexScan (odd : Bool) : List UInt8 → Bool
  | [] => !odd
  | c :: s =>
    if c == byte ' ' || c == byte '_' then !odd && hexScan odd s
    else isXdigit c && hexScan (!odd) s

/-- `arg_ok_hex`. -/
def argOkHex (s : List UInt8) : Bool := hexScan false s

def isBase64 (c : UInt8) : Bool :=
  isAlnum c || c == byte '+' || c == byte '/' || c == byte '-' || c == byte '_' || c == byte '='

/-- The loop of `arg_ok_base64`; `q` characters of the quartet have been read. -/
def base64Scan (q : ℕ) : List UInt8 → Bool
  | [] => q == 0
  | c :: s =>
    if c == byte ' ' then (q == 0 || q == 4) && base64Scan q s
    else isBase64 c && base64Scan (if q + 1 = 4 then 0 else q + 1) s

/-- `arg_ok_base64`. -/
def argOkBase64 (s : List UInt8) : Bool := base64Scan 0 s

/-- `arg_token_ok`. -/
def argTokenOk (typeCode : UInt8) (tok : List UInt8) : Bool :=
  if typeCode = byte 'u' then argOkUint64 tok
  else if typeCode = byte 'i' then argOkInt64 tok
  else if typeCode = byte 'd' then argOkDouble tok
  else if typeCode = byte 'h' then argOkHex tok
  else if typeCode = byte 'b' then argOkBase64 tok
  else true

/-- `arg_type_expectation`. -/
def argTypeExpectation (typeCode : UInt8) : List UInt8 :=
  if typeCode = byte 'u' then text "an unsigned integer (digits only)"
  else if typeCode = byte 'i' then text "an integer"
  else if typeCode = byte 'd' then text "a decimal number"
  else if typeCode = byte 'h' then text "hex bytes"
  else if typeCode = byte 'b' then text "base64"
  else text "a value"

/-- The token as the message echoes it. -/
def echo (tok : List UInt8) : List UInt8 := if tok.length ≤ 36 then tok else tok.take 36 ++ text "..."

/-- The finding for argument `ai`, if its type does not admit the token. -/
def argFinding (typeCode : UInt8) (tok : List UInt8) (ai : ℕ) : List Finding :=
  if argTokenOk typeCode tok then []
  else [⟨.error, snprintf 160 (text "arg " ++ decimal ai ++ text " expects " ++ argTypeExpectation typeCode ++
    text "; the satellite would reject \"" ++ echo tok ++ text "\"")⟩]

/-- The per-argument check of the tokens between the commas. -/
def argFindings (types args : List UInt8) : List Finding :=
  ((types.zip (args.splitOn (byte ','))).zipIdx.map fun p => argFinding p.1.1 p.1.2 p.2).flatten

/-! ## One telecommand -/

/-- `TCMD_PREFIX`, `TCMD_MAX_FULL_LEN`, `TCMD_MAX_ARGS_LEN`, `TCMD_RF_MAX_LEN`. -/
def tcmdPrefix : List UInt8 := text "CTS1+"
def tcmdMaxFullLen : ℕ := 255
def tcmdMaxArgsLen : ℕ := 240
def tcmdRfMaxLen : ℕ := 215

/-- `tcmd_dangerous_substrings`, with the reasons. -/
def tcmdDangerousSubstrings : List (List UInt8 × List UInt8) :=
  [(text "default_tcmd_agenda.txt",
    text "names the boot-time agenda 'default_tcmd_agenda.txt'; bad contents would boot-loop the satellite")]

def lengthFindings (cmd : List UInt8) : List Finding :=
  if tcmdMaxFullLen ≤ cmd.length then [⟨.error, text "exceeds firmware max telecommand length (255 chars)"⟩]
  else if tcmdRfMaxLen < cmd.length then
    [⟨.warn, snprintf 120 (decimal cmd.length ++ text " chars: over the " ++ decimal tcmdRfMaxLen ++
      text "-char RF uplink limit, won't fit one radio frame (umbilical only)")⟩]
  else []

def dangerFindings (cmd : List UInt8) : List Finding :=
  (tcmdDangerousSubstrings.filter fun b => decide (b.1 <:+: cmd)).map fun b => ⟨.danger, b.2⟩

def bangFindings (rest : List UInt8) : List Finding :=
  let bangCount := rest.count (byte '!')
  if bangCount = 0 then [⟨.error, text "missing terminating '!'"⟩]
  else if 1 < bangCount then [⟨.error, text "more than one '!' (two commands on one line?)"⟩]
  else []

/-- The checks against the row of the telecommand. -/
def specFindings (spec : TcmdSpec.Spec) (args : List UInt8) : List Finding :=
  let provided := argCount args
  (if provided ≠ spec.numArgs then
    [⟨.error, snprintf 96 (text "'" ++ spec.name ++ text "' expects " ++ decimal spec.numArgs ++ text " arg" ++
      (if spec.numArgs = 1 then [] else text "s") ++ text ", got " ++ decimal provided)⟩]
  else []) ++
  (if spec.readiness ≠ .operation then
    [⟨.warn, snprintf 128 (text "readiness '" ++ readinessLabel spec.readiness ++
      text "' -- not for routine flight operation")⟩]
  else []) ++
  if provided = spec.numArgs ∧ 0 < spec.numArgs ∧ spec.argTypes.length = spec.numArgs then
    argFindings spec.argTypes args
  else []

def tagFindings (cmd : List UInt8) : List Finding :=
  (if text "@tssent=" <:+: cmd ∧ agendaParseDirectiveMs (text "@tssent=") cmd = none then
    [⟨.error, text "malformed @tssent= (expected unix-ms digits)"⟩] else []) ++
  if text "@tsexec=" <:+: cmd ∧ agendaParseDirectiveMs (text "@tsexec=") cmd = none then
    [⟨.error, text "malformed @tsexec= (expected unix-ms digits)"⟩] else []

/-- The checks behind the prefix. -/
def bodyFindings (cmd : List UInt8) : List Finding :=
  let rest := cmd.drop tcmdPrefix.length
  let name := rest.takeWhile isNameChar
  let tail := rest.dropWhile isNameChar
  bangFindings rest ++
  if name = [] then [⟨.error, text "missing telecommand name after 'CTS1+'"⟩]
  else
    let spec := tcmdSpecFind name
    (if spec.isNone then [⟨.error, snprintf 96 (text "unknown telecommand '" ++ name ++ text "'")⟩] else []) ++
    if tail.head? ≠ some (byte '(') then [⟨.error, text "missing '(' after telecommand name"⟩]
    else if byte ')' ∉ tail then [⟨.error, text "missing ')' to close the argument list"⟩]
    else
      let args := tail.tail.takeWhile (· != byte ')')
      (if tcmdMaxArgsLen ≤ args.length then
        [⟨.error, text "argument string exceeds firmware limit (240 chars)"⟩] else []) ++
      (match spec with
        | some spec => specFindings spec args
        | none => []) ++
      tagFindings cmd

/-- The checks of `tcmd_lint_command` on the text of a telecommand. -/
def telecommandFindings (cmd : List UInt8) : List Finding :=
  lengthFindings cmd ++ dangerFindings cmd ++
  if cmd.length ≤ tcmdPrefix.length ∨ tcmdPrefix.isPrefixOf cmd = false then
    [⟨.error, text "missing 'CTS1+' prefix"⟩]
  else bodyFindings cmd

/-- The clocks an `SSO+` line is linted with. -/
def placeholderClocks : Ctx := ⟨1700000000000, 1700000000000 / 60000 * 60000⟩

/-- The telecommand the checks are run on: an `SSO+` line stands for its expansion, if it has one. An expansion is
no `SSO+` line. -/
def telecommand (cmd : List UInt8) : Except (List UInt8) (List UInt8) :=
  if isDirected cmd = false then .ok cmd
  else
    let e := ssoPseudoExpand cmd placeholderClocks 512 160
    if e.status ≠ .ok then .error e.err else .ok e.out

/-- What `tcmd_lint_command` flags. -/
def findings (cmd : List UInt8) : List Finding :=
  if cmd = [] then []
  else
    match telecommand cmd with
    | .error err => [⟨.error, err⟩]
    | .ok wire => telecommandFindings wire

/-- `tcmd_lint_command`: the message in a buffer of `cap` bytes, and the worst severity. -/
def tcmdLintCommand (cmd : List UInt8) (cap : ℕ) : List UInt8 × Severity := (findings cmd).foldl (flag cap) ([], .ok)

/-! ## The worst severity -/

/-- The severity alone. -/
def severity (cmd : List UInt8) : Severity := (tcmdLintCommand cmd 512).2

@[simp] theorem flag_snd (cap : ℕ) (s : List UInt8 × Severity) (f : Finding) :
    (flag cap s f).2 = raise s.2 f.severity := by
  unfold flag
  split_ifs <;> rfl

theorem foldl_flag_snd (cap : ℕ) (fs : List Finding) (s : List UInt8 × Severity) :
    (fs.foldl (flag cap) s).2 = (fs.map Finding.severity).foldl raise s.2 := by
  induction fs generalizing s with
  | nil => rfl
  | cons f fs ih => rw [List.foldl_cons, ih, flag_snd, List.map_cons, List.foldl_cons]

theorem rank_foldl_raise (l : List Severity) (s : Severity) (k : ℕ) :
    (l.foldl raise s).rank < k ↔ s.rank < k ∧ ∀ x ∈ l, x.rank < k := by
  induction l generalizing s with
  | nil => simp
  | cons x l ih =>
      have hraise : (raise s x).rank < k ↔ s.rank < k ∧ x.rank < k := by
        unfold raise
        split_ifs <;> omega
      rw [List.foldl_cons, ih, hraise, List.forall_mem_cons, and_assoc]

theorem rank_severity_lt (cmd : List UInt8) {k : ℕ} (hk : 0 < k) :
    (severity cmd).rank < k ↔ ∀ f ∈ findings cmd, f.severity.rank < k := by
  unfold severity tcmdLintCommand
  rw [foldl_flag_snd, rank_foldl_raise]
  simp [Severity.rank, hk]

/-- A command contains a blacklisted substring: the telecommand the checks are run on does. -/
def Blacklisted (cmd : List UInt8) : Prop :=
  ∃ wire, telecommand cmd = .ok wire ∧ ∃ b ∈ tcmdDangerousSubstrings, b.1 <:+: wire

/-- A command has a parse error. -/
def Malformed (cmd : List UInt8) : Prop := ∃ f ∈ findings cmd, f.severity = .error

/-! ### Only the blacklist is a danger -/

/-- No finding is a danger. -/
def Safe (fs : List Finding) : Prop := ∀ f ∈ fs, f.severity ≠ .danger

@[simp] theorem safe_nil : Safe [] := fun _ h => absurd h List.not_mem_nil

@[simp] theorem safe_append {fs gs : List Finding} : Safe (fs ++ gs) ↔ Safe fs ∧ Safe gs := List.forall_mem_append

@[simp] theorem safe_singleton (f : Finding) : Safe [f] ↔ f.severity ≠ .danger := List.forall_mem_singleton

theorem safe_ite {p : Prop} [Decidable p] {fs gs : List Finding} (hfs : Safe fs) (hgs : Safe gs) :
    Safe (if p then fs else gs) := by
  split_ifs
  · exact hfs
  · exact hgs

theorem safe_error (t : List UInt8) : Safe [⟨.error, t⟩] := (safe_singleton _).mpr (nofun)

theorem safe_warn (t : List UInt8) : Safe [⟨.warn, t⟩] := (safe_singleton _).mpr (nofun)

theorem safe_argFindings (types args : List UInt8) : Safe (argFindings types args) := by
  intro f hf
  obtain ⟨fs, hfs, hmem⟩ := List.mem_flatten.mp hf
  obtain ⟨p, -, rfl⟩ := List.mem_map.mp hfs
  exact safe_ite safe_nil (safe_error _) f hmem

theorem safe_bangFindings (rest : List UInt8) : Safe (bangFindings rest) :=
  safe_ite (safe_error _) (safe_ite (safe_error _) safe_nil)

theorem safe_specFindings (spec : TcmdSpec.Spec) (args : List UInt8) : Safe (specFindings spec args) :=
  safe_append.mpr ⟨safe_append.mpr ⟨safe_ite (safe_error _) safe_nil, safe_ite (safe_warn _) safe_nil⟩,
    safe_ite (safe_argFindings _ _) safe_nil⟩

theorem safe_tagFindings (cmd : List UInt8) : Safe (tagFindings cmd) :=
  safe_append.mpr ⟨safe_ite (safe_error _) safe_nil, safe_ite (safe_error _) safe_nil⟩

theorem safe_bodyFindings (cmd : List UInt8) : Safe (bodyFindings cmd) := by
  unfold bodyFindings
  dsimp only
  refine safe_append.mpr ⟨safe_bangFindings _, safe_ite (safe_error _) (safe_append.mpr ⟨?_, ?_⟩)⟩
  · exact safe_ite (safe_error _) safe_nil
  · refine safe_ite (safe_error _) (safe_ite (safe_error _) (safe_append.mpr ⟨safe_append.mpr ⟨?_, ?_⟩, ?_⟩))
    · exact safe_ite (safe_error _) safe_nil
    · split
      · exact safe_specFindings _ _
      · exact safe_nil
    · exact safe_tagFindings cmd

theorem danger_mem_telecommandFindings (cmd : List UInt8) :
    (∃ f ∈ telecommandFindings cmd, f.severity = .danger) ↔ ∃ b ∈ tcmdDangerousSubstrings, b.1 <:+: cmd := by
  have hlength : Safe (lengthFindings cmd) := safe_ite (safe_error _) (safe_ite (safe_warn _) safe_nil)
  have hrest : Safe (if cmd.length ≤ tcmdPrefix.length ∨ tcmdPrefix.isPrefixOf cmd = false then
      [⟨.error, text "missing 'CTS1+' prefix"⟩] else bodyFindings cmd) :=
    safe_ite (safe_error _) (safe_bodyFindings cmd)
  unfold telecommandFindings
  refine ⟨fun ⟨f, hf, hsev⟩ => ?_, fun ⟨b, hb, hsub⟩ => ?_⟩
  · rcases List.mem_append.mp hf with hf | hf
    · rcases List.mem_append.mp hf with hf | hf
      · exact absurd hsev (hlength f hf)
      · obtain ⟨b, hb, -⟩ := List.mem_map.mp hf
        obtain ⟨hmem, hsub⟩ := List.mem_filter.mp hb
        exact ⟨b, hmem, of_decide_eq_true hsub⟩
    · exact absurd hsev (hrest f hf)
  · refine ⟨⟨.danger, b.2⟩, List.mem_append_left _ (List.mem_append_right _ ?_), rfl⟩
    exact List.mem_map.mpr ⟨b, List.mem_filter.mpr ⟨hb, decide_eq_true hsub⟩, rfl⟩

theorem danger_mem_findings (cmd : List UInt8) :
    (∃ f ∈ findings cmd, f.severity = .danger) ↔ Blacklisted cmd := by
  unfold findings Blacklisted
  split_ifs with hnil
  · -- the blacklisted substrings are not empty
    subst hnil
    refine iff_of_false (by simp) ?_
    rintro ⟨wire, hwire, b, hb, hsub⟩
    cases hwire
    rw [List.mem_singleton.mp hb] at hsub
    exact absurd hsub (by decide)
  · cases telecommand cmd with
    | error err => simp
    | ok wire => simpa using danger_mem_telecommandFindings wire

/-! ### What the severity says -/

theorem severity_eq_danger_iff (cmd : List UInt8) : severity cmd = .danger ↔ Blacklisted cmd := by
  have hlt := rank_severity_lt cmd (k := 3) (by decide)
  have hrank : ∀ s : Severity, s.rank < 3 ↔ s ≠ .danger := fun s => by cases s <;> decide
  simp only [hrank] at hlt
  rw [← danger_mem_findings, ← not_iff_not, ← ne_eq, hlt]
  push Not
  exact Iff.rfl

/-- A parse error counts as one only where nothing is blacklisted. -/
theorem severity_eq_error_iff (cmd : List UInt8) : severity cmd = .error ↔ Malformed cmd ∧ ¬Blacklisted cmd := by
  have hlt := rank_severity_lt cmd (k := 2) (by decide)
  have hrank : ∀ s : Severity, s.rank < 2 ↔ s ≠ .error ∧ s ≠ .danger := fun s => by cases s <;> decide
  simp only [hrank] at hlt
  rw [← severity_eq_danger_iff]
  have hmal : Malformed cmd ↔ ¬∀ f ∈ findings cmd, f.severity ≠ .error := by
    unfold Malformed
    push Not
    exact Iff.rfl
  have hdanger : severity cmd ≠ .danger ↔ ∀ f ∈ findings cmd, f.severity ≠ .danger := by
    rw [ne_eq, severity_eq_danger_iff, ← danger_mem_findings]
    push Not
    exact Iff.rfl
  constructor
  · intro hsev
    refine ⟨hmal.mpr fun hall => ?_, by rw [hsev]; decide⟩
    have hsafe := hdanger.mp (by rw [hsev]; decide)
    exact (hlt.mpr fun f hf => ⟨hall f hf, hsafe f hf⟩).1 hsev
  · rintro ⟨hm, hnd⟩
    by_contra hne
    exact hmal.mp hm fun f hf => (hlt.mp ⟨hne, hnd⟩ f hf).1

end SimpleSatOps.TcmdCommand
