import SimpleSatOps.Lib.Decimal

/-!
# SSO+ pseudo-commands

* `ssoPseudoExpand` : the telecommand an `SSO+` line stands for, with the clocks of the moment;
* `parse` : the part of it that does not look at the clocks;
* `expand_eq` : a line expands under all clocks or under none.
-/

namespace SimpleSatOps.SsoPseudo

/-- `sso_pseudo_ctx_t`. -/
structure Ctx where
  nowMs : Int64
  tssentMs : Int64
deriving DecidableEq

inductive Status where
  | ok | notPseudo | unknownCmd | badSyntax | truncated
deriving DecidableEq

/-- What `sso_pseudo_expand` returns and writes to `out` and `err`. -/
structure Expansion where
  status : Status
  out : List UInt8
  err : List UInt8
deriving DecidableEq

/-- A row of the registry. -/
structure Spec where
  name : List UInt8
  numArgs : ℕ
  expand : Ctx → ℕ → Expansion

/-- `SSO_TIME_SYNC_BUDGET_MS`. -/
def timeSyncBudgetMs : Int64 := 500

/-- The text `expand_sync_sat_time_to_ground` prints. -/
def syncSatTimeText (ctx : Ctx) : List UInt8 :=
  text "CTS1+set_system_time(" ++ decimalInt (ctx.nowMs + timeSyncBudgetMs).toInt ++ text ")@tssent=" ++
    decimalInt ctx.tssentMs.toInt ++ text "!"

def expandSyncSatTimeToGround (ctx : Ctx) (outCap : ℕ) : Expansion :=
  let s := syncSatTimeText ctx
  ⟨if outCap ≤ s.length then .truncated else .ok, snprintf outCap s, []⟩

/-- `SSO_PSEUDO_SPEC`. -/
def ssoPseudoSpec : List Spec := [⟨text "sync_sat_time_to_ground", 0, expandSyncSatTimeToGround⟩]

/-- `is_name_char`. -/
def isNameChar (c : UInt8) : Bool := isAlnum c || c == byte '_'

/-- `spec_find`. -/
def specFind (name : List UInt8) : Option Spec := ssoPseudoSpec.find? fun spec => spec.name == name

/-- `SSO_PSEUDO_PREFIX`. -/
def ssoPrefix : List UInt8 := text "SSO+"

/-- `sso_pseudo_is_directed`. -/
def isDirected (cmd : List UInt8) : Bool := ssoPrefix.isPrefixOf cmd

/-- How many arguments stand between the parentheses: none, or one more than there are commas. -/
def argCount (args : List UInt8) : ℕ := if args = [] then 0 else args.count (byte ',') + 1

/-- The shared parser of `sso_pseudo_expand`: the row of the command, or what `fail` is called with. -/
def parse (cmd : List UInt8) : Except (Status × List UInt8) Spec :=
  let rest := cmd.drop ssoPrefix.length
  let name := rest.takeWhile isNameChar
  let tail := rest.dropWhile isNameChar
  let bangCount := rest.count (byte '!')
  if name = [] then .error (.badSyntax, text "missing command name after 'SSO+'")
  else if bangCount = 0 then .error (.badSyntax, text "missing terminating '!'")
  else if 1 < bangCount then .error (.badSyntax, text "more than one '!' (two commands on one line?)")
  else if tail.head? ≠ some (byte '(') then .error (.badSyntax, text "missing '(' after SSO+ command name")
  else if byte ')' ∉ tail then .error (.badSyntax, text "missing ')' to close the SSO+ argument list")
  else
    let args := tail.tail.takeWhile (· != byte ')')
    match specFind name with
    | none => .error (.unknownCmd, snprintf 96 (text "unknown SSO+ command '" ++ name ++ text "'"))
    | some spec =>
      if argCount args ≠ spec.numArgs then
        .error (.badSyntax, snprintf 96 (text "SSO+ '" ++ spec.name ++ text "' expects " ++ decimal spec.numArgs ++
          text " arg" ++ (if spec.numArgs = 1 then [] else text "s") ++ text ", got " ++ decimal (argCount args)))
      else .ok spec

/-- `sso_pseudo_expand` with buffers of `outCap` and `errCap` bytes. -/
def ssoPseudoExpand (cmd : List UInt8) (ctx : Ctx) (outCap errCap : ℕ) : Expansion :=
  if isDirected cmd = false then ⟨.notPseudo, snprintf outCap cmd, []⟩
  else
    match parse cmd with
    | .error (st, msg) => ⟨st, [], snprintf errCap msg⟩
    | .ok spec => spec.expand ctx outCap

/-! ## The clocks decide nothing -/

theorem mem_of_specFind {name : List UInt8} {spec : Spec} (h : specFind name = some spec) : spec ∈ ssoPseudoSpec :=
  List.mem_of_find?_eq_some h

theorem mem_of_parse {cmd : List UInt8} {spec : Spec} (h : parse cmd = .ok spec) : spec ∈ ssoPseudoSpec := by
  unfold parse at h
  dsimp only at h
  split_ifs at h
  split at h
  · cases h
  · rename_i hfind
    split_ifs at h
    cases h
    exact mem_of_specFind hfind

/-- Every telecommand of the registry is short. -/
theorem length_syncSatTimeText_le (ctx : Ctx) : (syncSatTimeText ctx).length ≤ 71 := by
  have hnow := length_decimalInt_int64_le (ctx.nowMs + timeSyncBudgetMs)
  have hsent := length_decimalInt_int64_le ctx.tssentMs
  have h1 : (text "CTS1+set_system_time(").length = 21 := rfl
  have h2 : (text ")@tssent=").length = 9 := rfl
  have h3 : (text "!").length = 1 := rfl
  unfold syncSatTimeText
  simp only [List.length_append]
  omega

theorem expand_of_mem {spec : Spec} (h : spec ∈ ssoPseudoSpec) (ctx : Ctx) {outCap : ℕ} (hcap : 71 < outCap) :
    (spec.expand ctx outCap).status = .ok ∧ (spec.expand ctx outCap).out.length ≤ 71 := by
  obtain rfl : spec = ⟨text "sync_sat_time_to_ground", 0, expandSyncSatTimeToGround⟩ := List.mem_singleton.mp h
  have hlen := length_syncSatTimeText_le ctx
  refine ⟨if_neg (by omega), ?_⟩
  exact (List.length_take_le' _ _).trans hlen

/-- What a line comes to does not hang on the clocks: its status, and whether the telecommand is short. -/
theorem expand_eq (cmd : List UInt8) (ctx ctx' : Ctx) {outCap : ℕ} (hcap : 71 < outCap) (errCap : ℕ) {n : ℕ}
    (hn : 71 ≤ n) :
    (ssoPseudoExpand cmd ctx outCap errCap).status = (ssoPseudoExpand cmd ctx' outCap errCap).status ∧
    ((ssoPseudoExpand cmd ctx outCap errCap).out.length ≤ n ↔
      (ssoPseudoExpand cmd ctx' outCap errCap).out.length ≤ n) := by
  unfold ssoPseudoExpand
  split_ifs
  · exact ⟨rfl, Iff.rfl⟩
  · cases hparse : parse cmd with
    | error e => exact ⟨rfl, Iff.rfl⟩
    | ok spec =>
        obtain ⟨hst, hlen⟩ := expand_of_mem (mem_of_parse hparse) ctx hcap
        obtain ⟨hst', hlen'⟩ := expand_of_mem (mem_of_parse hparse) ctx' hcap
        exact ⟨hst.trans hst'.symm, iff_of_true (hlen.trans hn) (hlen'.trans hn)⟩

end SimpleSatOps.SsoPseudo
