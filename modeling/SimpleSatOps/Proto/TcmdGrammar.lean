import SimpleSatOps.Lib.Framing
import SimpleSatOps.Lib.Groups
import SimpleSatOps.Proto.TcmdClean

/-!
# The language of `tcmd_lint_command`

* `Token`, `Arguments`, `Tag`, `Telecommand` : the grammar, with no reader in it;
* `argTokenOk_iff`, `quiet_specFindings`, `quiet_tagFindings` : each check finds nothing exactly on its part of it;
* `severity_lt_error_iff` : a command is below an error when it is a telecommand of the grammar.
-/

namespace SimpleSatOps.TcmdGrammar
open AgendaLine SsoPseudo TcmdSpec TcmdCommand

/-! ## The grammar -/

def Digits (s : List UInt8) : Prop := ∀ c ∈ s, isDigit c = true

@[simp] theorem digits_nil : Digits [] := fun _ h => absurd h List.not_mem_nil

@[simp] theorem digits_cons {c : UInt8} {s : List UInt8} : Digits (c :: s) ↔ isDigit c = true ∧ Digits s :=
  List.forall_mem_cons

theorem digits_iff_all {s : List UInt8} : s.all isDigit = true ↔ Digits s := List.all_eq_true

/-- The token language of a type code. -/
def Token (typeCode : UInt8) (tok : List UInt8) : Prop :=
  if typeCode = byte 'u' then 1 ≤ tok.length ∧ tok.length ≤ 19 ∧ Digits tok
  else if typeCode = byte 'i' then
    tok ≠ [] ∧ ∃ sign digits, tok = sign ++ digits ∧ sign ∈ [[], [byte '-']] ∧ Digits digits
  else if typeCode = byte 'd' then tok ≠ [] ∧ ∃ sign whole, sign ∈ [[], [byte '-']] ∧ Digits whole ∧
    (tok = sign ++ whole ∨
      ∃ frac, tok = sign ++ whole ++ byte '.' :: frac ∧ sign ++ whole ≠ [] ∧ frac ≠ [] ∧ Digits frac)
  else if typeCode = byte 'h' then Grouped (fun c => c == byte ' ' || c == byte '_') isXdigit 2 tok
  else if typeCode = byte 'b' then Grouped (fun c => c == byte ' ') isBase64 4 tok
  else True

/-- The tokens between the commas, one of each type; empty text holds none. -/
def Arguments (types args : List UInt8) : Prop :=
  ∃ toks : List (List UInt8), (args = [] ↔ toks = []) ∧ args = [byte ','].intercalate toks ∧
    (∀ tok ∈ toks, byte ',' ∉ tok) ∧ List.Forall₂ Token types toks

/-- A key, if it stands in the command, is somewhere followed by a number of fewer than 32 characters. -/
def Tag (key cmd : List UInt8) : Prop :=
  key <:+: cmd → ∃ pre sign digits post, cmd = pre ++ (key ++ (sign ++ (digits ++ post))) ∧
    sign ∈ [[], [byte '+'], [byte '-']] ∧ digits ≠ [] ∧ Digits digits ∧ (∀ c ∈ post.head?, isDigit c = false) ∧
    sign.length + digits.length < 32

/-- The telecommands of the grammar. -/
def Telecommand (cmd : List UInt8) : Prop :=
  cmd.length ≤ 254 ∧
  (∃ name spec args rest, cmd = tcmdPrefix ++ (name ++ byte '(' :: (args ++ byte ')' :: rest)) ∧ name ≠ [] ∧
    tcmdSpecFind name = some spec ∧ byte ')' ∉ args ∧ args.length < 240 ∧ spec.argTypes.length = spec.numArgs ∧
    Arguments spec.argTypes args) ∧
  (cmd.drop tcmdPrefix.length).count (byte '!') = 1 ∧
  Tag (text "@tssent=") cmd ∧ Tag (text "@tsexec=") cmd ∧
  ∀ b ∈ tcmdDangerousSubstrings, ¬ b.1 <:+: cmd

/-! ## Tokens -/

theorem argOkInt64_iff (tok : List UInt8) : argOkInt64 tok = true ↔
    tok ≠ [] ∧ ∃ sign digits, tok = sign ++ digits ∧ sign ∈ [[], [byte '-']] ∧ Digits digits := by
  have hminus : isDigit (byte '-') = false := by decide
  unfold argOkInt64
  rw [Bool.and_eq_true, decide_eq_true_iff, digits_iff_all]
  refine and_congr_right fun hne => ?_
  match tok, hne with
  | c :: s, _ =>
    constructor
    · intro h
      by_cases hc : c = byte '-'
      · subst hc
        exact ⟨[byte '-'], s, rfl, by simp, by simpa using h⟩
      · have hhead : ¬ (c :: s).head? = some (byte '-') := fun h => hc (Option.some.inj h)
        rw [if_neg hhead] at h
        exact ⟨[], c :: s, rfl, by simp, h⟩
    · rintro ⟨sign, digits, hs, hsign, hd⟩
      rcases List.mem_pair.1 hsign with rfl | rfl
      · rw [List.nil_append] at hs
        rw [← hs, digits_cons] at hd
        have hc : c ≠ byte '-' := by
          rintro rfl
          rw [hminus] at hd
          exact absurd hd.1 Bool.false_ne_true
        simpa [hc] using hd
      · obtain ⟨rfl, rfl⟩ := List.cons.inj hs
        simpa using hd

/-- The fraction, behind the point. -/
theorem doubleScan_frac (s : List UInt8) : doubleScan false true s = true ↔ Digits s := by
  induction s with
  | nil => simp [doubleScan]
  | cons c s ih => simp [doubleScan, ih]

/-- What stands behind the first character. -/
theorem doubleScan_rest (s : List UInt8) : doubleScan false false s = true ↔
    ∃ whole, Digits whole ∧ (s = whole ∨ ∃ frac, s = whole ++ byte '.' :: frac ∧ frac ≠ [] ∧ Digits frac) := by
  have hpoint : isDigit (byte '.') = false := by decide
  induction s with
  | nil => simp [doubleScan]
  | cons c s ih =>
    by_cases hc : c = byte '.' ∧ s ≠ []
    · obtain ⟨rfl, hs⟩ := hc
      have hscan : doubleScan false false (byte '.' :: s) = doubleScan false true s := by simp [doubleScan, hs]
      rw [hscan, doubleScan_frac]
      constructor
      · exact fun h => ⟨[], by simp, .inr ⟨s, rfl, hs, h⟩⟩
      · rintro ⟨whole, hw, h | ⟨frac, h, hne, hf⟩⟩
        · have := hw _ (h ▸ List.mem_cons_self)
          rw [hpoint] at this
          cases this
        · match whole with
          | [] =>
            rw [List.nil_append, List.cons.injEq] at h
            exact h.2 ▸ hf
          | d :: whole =>
            obtain ⟨rfl, -⟩ := List.cons.inj h
            have := hw _ List.mem_cons_self
            rw [hpoint] at this
            cases this
    · have hscan : doubleScan false false (c :: s) = (isDigit c && doubleScan false false s) := by
        rw [doubleScan, if_neg (by simp), if_neg]
        simpa using hc
      rw [hscan, Bool.and_eq_true]
      refine (and_congr_right fun _ => ih).trans ?_
      constructor
      · rintro ⟨hd, whole, hw, h⟩
        refine ⟨c :: whole, digits_cons.2 ⟨hd, hw⟩, ?_⟩
        rcases h with rfl | ⟨frac, rfl, hne, hf⟩
        · exact .inl rfl
        · exact .inr ⟨frac, rfl, hne, hf⟩
      · rintro ⟨whole, hw, h⟩
        match whole, hw with
        | [], _ =>
          obtain h | ⟨frac, h, hne, -⟩ := h
          · cases h
          · obtain ⟨rfl, rfl⟩ := List.cons.inj h
            exact absurd ⟨rfl, hne⟩ hc
        | d :: whole, hw =>
          obtain ⟨hd, hwhole⟩ := digits_cons.1 hw
          rcases h with h | ⟨frac, h, hne, hf⟩
          · obtain ⟨rfl, rfl⟩ := List.cons.inj h
            exact ⟨hd, _, hwhole, .inl rfl⟩
          · obtain ⟨rfl, rfl⟩ := List.cons.inj h
            exact ⟨hd, whole, hwhole, .inr ⟨frac, rfl, hne, hf⟩⟩

theorem argOkDouble_iff (tok : List UInt8) : argOkDouble tok = true ↔
    tok ≠ [] ∧ ∃ sign whole, sign ∈ [[], [byte '-']] ∧ Digits whole ∧ (tok = sign ++ whole ∨
      ∃ frac, tok = sign ++ whole ++ byte '.' :: frac ∧ sign ++ whole ≠ [] ∧ frac ≠ [] ∧ Digits frac) := by
  have hminus : isDigit (byte '-') = false := by decide
  unfold argOkDouble
  rw [Bool.and_eq_true, decide_eq_true_iff]
  refine and_congr_right fun hne => ?_
  match tok, hne with
  | c :: s, _ =>
    by_cases hc : c = byte '-'
    · -- the sign, and what may stand behind it
      subst hc
      have hscan : doubleScan true false (byte '-' :: s) = doubleScan false false s := by simp [doubleScan]
      rw [hscan]
      refine (doubleScan_rest s).trans ⟨?_, ?_⟩
      · rintro ⟨whole, hw, rfl | ⟨frac, rfl, hne, hf⟩⟩
        · exact ⟨[byte '-'], s, by simp, hw, .inl rfl⟩
        · exact ⟨[byte '-'], whole, by simp, hw, .inr ⟨frac, rfl, by simp, hne, hf⟩⟩
      · rintro ⟨sign, whole, hsign, hw, h⟩
        rcases List.mem_pair.1 hsign with rfl | rfl
        · exfalso
          match whole, hw with
          | [], _ =>
            obtain h | ⟨frac, -, h, -⟩ := h
            · cases h
            · exact h rfl
          | d :: whole, hw =>
            have hd : byte '-' = d := by
              rcases h with h | ⟨frac, h, -⟩
              · exact (List.cons.inj h).1
              · exact (List.cons.inj h).1
            rw [digits_cons, ← hd, hminus] at hw
            exact Bool.false_ne_true hw.1
        · refine ⟨whole, hw, ?_⟩
          rcases h with h | ⟨frac, h, -, hne, hf⟩
          · exact .inl (List.cons.inj h).2
          · exact .inr ⟨frac, (List.cons.inj h).2, hne, hf⟩
    · -- no sign, so a digit comes first
      have hscan : doubleScan true false (c :: s) = (isDigit c && doubleScan false false s) := by simp [doubleScan, hc]
      rw [hscan, Bool.and_eq_true]
      refine (and_congr_right fun _ => doubleScan_rest s).trans ⟨?_, ?_⟩
      · rintro ⟨hd, whole, hw, rfl | ⟨frac, rfl, hne, hf⟩⟩
        · exact ⟨[], c :: s, by simp, digits_cons.2 ⟨hd, hw⟩, .inl rfl⟩
        · exact ⟨[], c :: whole, by simp, digits_cons.2 ⟨hd, hw⟩, .inr ⟨frac, rfl, by simp, hne, hf⟩⟩
      · rintro ⟨sign, whole, hsign, hw, h⟩
        rcases List.mem_pair.1 hsign with rfl | rfl
        · match whole, hw with
          | [], _ =>
            obtain h | ⟨frac, -, h, -⟩ := h
            · cases h
            · exact absurd rfl h
          | d :: whole, hw =>
            obtain ⟨hd, hwhole⟩ := digits_cons.1 hw
            rcases h with h | ⟨frac, h, -, hne, hf⟩
            · obtain ⟨rfl, rfl⟩ := List.cons.inj h
              exact ⟨hd, _, hwhole, .inl rfl⟩
            · obtain ⟨rfl, rfl⟩ := List.cons.inj h
              exact ⟨hd, whole, hwhole, .inr ⟨frac, rfl, hne, hf⟩⟩
        · exfalso
          rcases h with h | ⟨frac, h, -⟩
          · exact hc (List.cons.inj h).1
          · exact hc (List.cons.inj h).1

theorem argOkHex_iff (tok : List UInt8) :
    argOkHex tok = true ↔ Grouped (fun c => c == byte ' ' || c == byte '_') isXdigit 2 tok := by
  have hdisj : ∀ c : UInt8, (c == byte ' ' || c == byte '_') = true → isXdigit c = false := by
    simp only [Bool.or_eq_true, beq_iff_eq]
    rintro c (rfl | rfl) <;> decide
  have hscan : ∀ (s : List UInt8) (odd : Bool),
      hexScan odd s = groupScan (fun c => c == byte ' ' || c == byte '_') isXdigit 2 odd.toNat s := fun s => by
    induction s with
    | nil => exact fun odd => by cases odd <;> rfl
    | cons c s ih =>
      intro odd
      rw [hexScan, groupScan, ih, ih]
      cases odd <;> rfl
  rw [argOkHex, hscan]
  exact groupScan_iff two_pos hdisj tok

theorem argOkBase64_iff (tok : List UInt8) :
    argOkBase64 tok = true ↔ Grouped (fun c => c == byte ' ') isBase64 4 tok := by
  have hdisj : ∀ c : UInt8, (c == byte ' ') = true → isBase64 c = false := by
    simp only [beq_iff_eq]
    rintro c rfl
    decide
  have hscan : ∀ (s : List UInt8) (q : ℕ), q < 4 →
      base64Scan q s = groupScan (fun c => c == byte ' ') isBase64 4 q s := fun s => by
    induction s with
    | nil => exact fun q _ => rfl
    | cons c s ih =>
      intro q hq
      have hfour : (q == 4) = false := by simpa using hq.ne
      rw [base64Scan, groupScan, ih q hq, ih _ (by split_ifs <;> omega), hfour, Bool.or_false]
  rw [argOkBase64, hscan _ _ (by decide)]
  exact groupScan_iff (by decide) hdisj tok

/-- **A validator accepts the token language of its type.** -/
theorem argTokenOk_iff (typeCode : UInt8) (tok : List UInt8) : argTokenOk typeCode tok = true ↔ Token typeCode tok := by
  have huint : argOkUint64 tok = true ↔ 1 ≤ tok.length ∧ tok.length ≤ 19 ∧ Digits tok := by
    rw [argOkUint64, Bool.and_eq_true, Bool.and_eq_true, decide_eq_true_iff, decide_eq_true_iff, digits_iff_all,
      and_assoc]
  unfold argTokenOk Token
  split_ifs
  · exact huint
  · exact argOkInt64_iff tok
  · exact argOkDouble_iff tok
  · exact argOkHex_iff tok
  · exact argOkBase64_iff tok
  · exact iff_of_true rfl trivial

/-! ## Findings below an error -/

/-- No finding is an error or a danger. -/
def Quiet (fs : List Finding) : Prop := ∀ f ∈ fs, f.severity.rank < 2

@[simp] theorem quiet_nil : Quiet [] := fun _ h => absurd h List.not_mem_nil

@[simp] theorem quiet_append {fs gs : List Finding} : Quiet (fs ++ gs) ↔ Quiet fs ∧ Quiet gs := List.forall_mem_append

@[simp] theorem quiet_error (t : List UInt8) (fs : List Finding) : ¬ Quiet (⟨.error, t⟩ :: fs) := fun h =>
  absurd (h _ List.mem_cons_self) (lt_irrefl 2)

@[simp] theorem quiet_warn (t : List UInt8) : Quiet [⟨.warn, t⟩] := List.forall_mem_singleton.2 one_lt_two

theorem quiet_ite {p : Prop} [Decidable p] {fs gs : List Finding} :
    Quiet (if p then fs else gs) ↔ (p → Quiet fs) ∧ (¬ p → Quiet gs) := by
  split_ifs with h <;> simp [h]

theorem quiet_ite_error {p : Prop} [Decidable p] {t : List UInt8} {fs : List Finding} :
    Quiet (if p then [⟨.error, t⟩] else fs) ↔ ¬ p ∧ Quiet fs := by
  split_ifs with h <;> simp [h]

theorem quiet_lengthFindings (cmd : List UInt8) : Quiet (lengthFindings cmd) ↔ cmd.length ≤ 254 := by
  unfold lengthFindings tcmdMaxFullLen
  rw [quiet_ite_error, quiet_ite]
  simp
  omega

theorem quiet_dangerFindings (cmd : List UInt8) :
    Quiet (dangerFindings cmd) ↔ ∀ b ∈ tcmdDangerousSubstrings, ¬ b.1 <:+: cmd := by
  unfold dangerFindings
  constructor
  · intro h b hb hsub
    have hmem : (⟨.danger, b.2⟩ : Finding) ∈
        (tcmdDangerousSubstrings.filter fun b => decide (b.1 <:+: cmd)).map fun b => ⟨.danger, b.2⟩ :=
      List.mem_map.2 ⟨b, List.mem_filter.2 ⟨hb, decide_eq_true hsub⟩, rfl⟩
    exact absurd (h _ hmem) (show ¬ 3 < 2 by decide)
  · intro h
    have hnone : (tcmdDangerousSubstrings.filter fun b => decide (b.1 <:+: cmd)) = [] := by
      rw [List.filter_eq_nil_iff]
      exact fun b hb => by simpa using h b hb
    rw [hnone]
    exact quiet_nil

theorem quiet_bangFindings (rest : List UInt8) : Quiet (bangFindings rest) ↔ rest.count (byte '!') = 1 := by
  unfold bangFindings
  dsimp only
  rw [quiet_ite_error, quiet_ite_error]
  simp
  omega

/-! ### The arguments -/

theorem quiet_argFindings (types args : List UInt8) : Quiet (argFindings types args) ↔
    ∀ p ∈ types.zip (args.splitOn (byte ',')), argTokenOk p.1 p.2 = true := by
  have hone : ∀ (typeCode : UInt8) (tok : List UInt8) (ai : ℕ),
      Quiet (argFinding typeCode tok ai) ↔ argTokenOk typeCode tok = true := by
    intro typeCode tok ai
    unfold argFinding
    split_ifs with h <;> simp [h]
  have hflat : ∀ (fss : List (List Finding)), Quiet fss.flatten ↔ ∀ fs ∈ fss, Quiet fs := fun fss =>
    ⟨fun h fs hfs f hf => h f (List.mem_flatten.2 ⟨fs, hfs, hf⟩), fun h f hf =>
      have ⟨fs, hfs, hmem⟩ := List.mem_flatten.1 hf
      h fs hfs f hmem⟩
  unfold argFindings
  rw [hflat, List.forall_mem_map]
  constructor
  · intro h p hp
    obtain ⟨i, hi, rfl⟩ := List.getElem_of_mem hp
    exact (hone _ _ i).1 (h ⟨_, i⟩ (List.mem_zipIdx_iff_getElem?.2 (List.getElem?_eq_getElem hi)))
  · rintro h ⟨p, i⟩ hp
    exact (hone _ _ i).2 (h p (List.mem_of_getElem? (List.mem_zipIdx_iff_getElem?.1 hp)))

theorem quiet_specFindings {spec : TcmdSpec.Spec} (htypes : spec.argTypes.length = spec.numArgs) (args : List UInt8) :
    Quiet (specFindings spec args) ↔ Arguments spec.argTypes args := by
  have hsplit : Quiet (specFindings spec args) ↔ argCount args = spec.numArgs ∧
      (0 < spec.numArgs → ∀ p ∈ spec.argTypes.zip (args.splitOn (byte ',')), argTokenOk p.1 p.2 = true) := by
    unfold specFindings
    dsimp only
    rw [quiet_append, quiet_append, quiet_ite_error, quiet_ite, quiet_ite, quiet_argFindings, not_ne_iff]
    simp only [quiet_warn, quiet_nil, implies_true, and_true]
    exact and_congr_right fun h => ⟨fun hq hpos => hq ⟨h, hpos, htypes⟩, fun hq hc => hq hc.2.1⟩
  rw [hsplit]
  constructor
  · rintro ⟨hcount, hargs⟩
    by_cases hnil : args = []
    · have htypes0 : spec.argTypes = [] := List.eq_nil_of_length_eq_zero (by rw [htypes, ← hcount, hnil]; rfl)
      rw [htypes0]
      exact ⟨[], by simp [hnil], hnil, by simp, .nil⟩
    · have hne := List.splitOn_ne_nil (byte ',') args
      have hfree : ∀ tok ∈ args.splitOn (byte ','), byte ',' ∉ tok := fun tok h => Framing.free_of_mem_splitOn h
      have hlen : (args.splitOn (byte ',')).length = spec.numArgs := by
        rw [← hcount, argCount, if_neg hnil, ← Framing.count_intercalate hne hfree, List.intercalate_splitOn]
      refine ⟨args.splitOn (byte ','), iff_of_false hnil hne, (List.intercalate_splitOn _).symm, hfree, ?_⟩
      refine List.forall₂_iff_zip.2 ⟨htypes.trans hlen.symm, fun h => (argTokenOk_iff _ _).1 (hargs ?_ _ h)⟩
      rw [← hlen]
      exact List.length_pos_of_ne_nil hne
  · rintro ⟨toks, hnil, hargs, hfree, hall⟩
    have hlen : toks.length = spec.numArgs := hall.length_eq.symm.trans htypes
    by_cases hz : toks = []
    · have hargs0 : args = [] := hnil.2 hz
      rw [hz, List.length_nil] at hlen
      exact ⟨by rw [hargs0, ← hlen]; rfl, fun hpos => absurd hlen hpos.ne⟩
    · have hback : args.splitOn (byte ',') = toks := hargs ▸ List.splitOn_intercalate _ hfree hz
      have hcount : argCount args = toks.length := by
        rw [argCount, if_neg fun h => hz (hnil.1 h), hargs, Framing.count_intercalate hz hfree]
      refine ⟨hcount.trans hlen, fun _ p hp => ?_⟩
      rw [hback] at hp
      exact (argTokenOk_iff _ _).2 (List.forall₂_zip hall hp)

/-! ### The tags -/

theorem agendaParseDirectiveMs_ne_none_iff {key : List UInt8} (hkey : key ≠ []) (cmd : List UInt8) :
    agendaParseDirectiveMs key cmd ≠ none ↔ ∃ pre v, cmd = pre ++ (key ++ v) ∧ directiveNumber v ≠ none := by
  constructor
  · induction cmd with
    | nil => exact fun h => absurd rfl h
    | cons c cmd ih =>
      intro h
      rw [agendaParseDirectiveMs] at h
      split at h
      · rename_i number hnumber
        split_ifs at hnumber with hpre
        obtain ⟨v, hv⟩ := List.isPrefixOf_iff_prefix.1 hpre
        refine ⟨[], v, hv.symm, ?_⟩
        rw [← hv, List.drop_left] at hnumber
        rw [hnumber]
        exact Option.some_ne_none number
      · obtain ⟨pre, v, rfl, hv⟩ := ih h
        exact ⟨c :: pre, v, rfl, hv⟩
  · rintro ⟨pre, v, rfl, hv⟩
    exact agendaParseDirectiveMs_append key pre v hkey hv

theorem directiveNumber_ne_none_iff (v : List UInt8) : directiveNumber v ≠ none ↔
    ∃ sign digits post, v = sign ++ (digits ++ post) ∧ sign ∈ [[], [byte '+'], [byte '-']] ∧ digits ≠ [] ∧
      Digits digits ∧ (∀ c ∈ post.head?, isDigit c = false) ∧ sign.length + digits.length < 32 := by
  have hsigns : isDigit (byte '+') = false ∧ isDigit (byte '-') = false := by decide
  constructor
  · intro h
    obtain ⟨sign, w, rfl, hsign, hfilter⟩ : ∃ sign w, v = sign ++ w ∧ sign ∈ [[], [byte '+'], [byte '-']] ∧
        (v.take 1).filter (fun c => c == byte '+' || c == byte '-') = sign := by
      cases v with
      | nil => exact ⟨[], [], rfl, by simp, rfl⟩
      | cons c w =>
        by_cases hc : c = byte '+' ∨ c = byte '-'
        · refine ⟨[c], w, rfl, ?_, ?_⟩
          · rcases hc with rfl | rfl <;> simp
          · simpa using hc
        · exact ⟨[], c :: w, rfl, by simp, by simpa using hc⟩
    unfold directiveNumber at h
    dsimp only at h
    rw [hfilter, List.drop_left] at h
    split_ifs at h with hbad
    · exact absurd rfl h
    · rw [not_or] at hbad
      refine ⟨sign, w.takeWhile isDigit, w.dropWhile isDigit, ?_, hsign, hbad.1, ?_, ?_, by omega⟩
      · rw [List.takeWhile_append_dropWhile]
      · exact fun c hc => List.mem_takeWhile_imp hc
      · intro c hc
        obtain ⟨t, ht⟩ := List.head?_eq_some_iff.1 hc
        have hhead := List.head_dropWhile_not isDigit (l := w) (by rw [ht]; exact List.cons_ne_nil _ _)
        simpa [ht] using hhead
  · rintro ⟨sign, digits, post, rfl, hsign, hne, hd, hpost, hlen⟩
    have htake : (digits ++ post).takeWhile isDigit = digits := by
      rw [List.takeWhile_append_of_pos hd]
      cases post with
      | nil => simp
      | cons c post => rw [List.takeWhile_cons_of_neg (by rw [hpost c rfl]; nofun), List.append_nil]
    refine directiveNumber_append sign ?_ htake hne hlen
    simp only [List.mem_cons, List.not_mem_nil, or_false] at hsign
    rcases hsign with rfl | rfl | rfl
    · -- the first digit is no sign
      obtain ⟨d, ds, rfl⟩ := List.exists_cons_of_ne_nil hne
      have hdigit := (digits_cons.1 hd).1
      have hplus : d ≠ byte '+' := by
        rintro rfl
        rw [hsigns.1] at hdigit
        exact Bool.false_ne_true hdigit
      have hminus : d ≠ byte '-' := by
        rintro rfl
        rw [hsigns.2] at hdigit
        exact Bool.false_ne_true hdigit
      simp [hplus, hminus]
    · rfl
    · rfl

theorem tag_iff {key : List UInt8} (hkey : key ≠ []) (cmd : List UInt8) :
    Tag key cmd ↔ ¬ (key <:+: cmd ∧ agendaParseDirectiveMs key cmd = none) := by
  rw [not_and]
  refine imp_congr_right fun _ => ?_
  refine Iff.trans ?_ (agendaParseDirectiveMs_ne_none_iff hkey cmd).symm
  constructor
  · rintro ⟨pre, sign, digits, post, hcmd, h⟩
    exact ⟨pre, _, hcmd, (directiveNumber_ne_none_iff _).2 ⟨sign, digits, post, rfl, h⟩⟩
  · rintro ⟨pre, v, hcmd, hv⟩
    obtain ⟨sign, digits, post, rfl, h⟩ := (directiveNumber_ne_none_iff v).1 hv
    exact ⟨pre, sign, digits, post, hcmd, h⟩

theorem quiet_tagFindings (cmd : List UInt8) :
    Quiet (tagFindings cmd) ↔ Tag (text "@tssent=") cmd ∧ Tag (text "@tsexec=") cmd := by
  have hkeys : text "@tssent=" ≠ [] ∧ text "@tsexec=" ≠ [] := by decide
  unfold tagFindings
  rw [quiet_append, quiet_ite_error, quiet_ite_error, tag_iff hkeys.1, tag_iff hkeys.2]
  simp only [quiet_nil, and_true]

/-! ## The command -/

/-- A literal is checked character by character: its bytes are not decoded. -/
theorem all_text_ofList {p : UInt8 → Bool} (cs : List Char) (h : (cs.all fun c => p (UInt8.ofNat c.toNat)) = true) :
    (text (String.ofList cs)).all p = true := by
  rw [text, String.toList_ofList, List.all_map]
  exact h

set_option maxRecDepth 10000 in
/-- Every row of the table has a name of name characters. -/
theorem name_of_mem_tcmdSpec : ∀ spec ∈ tcmdSpec, spec.name.all isNameChar = true := by
  simp only [tcmdSpec, row, List.forall_mem_cons, List.not_mem_nil, false_implies, implies_true, and_true]
  and_intros
  all_goals exact all_text_ofList _ (by decide +kernel)

theorem of_tcmdSpecFind {name : List UInt8} {spec : TcmdSpec.Spec} (h : tcmdSpecFind name = some spec) :
    (∀ c ∈ name, isNameChar c = true) ∧ spec.argTypes.length = spec.numArgs := by
  have hmem := List.mem_of_find?_eq_some h
  have hname : spec.name = name := by simpa using List.find?_some h
  exact ⟨List.all_eq_true.1 (hname ▸ name_of_mem_tcmdSpec spec hmem), argTypes_length spec hmem⟩

/-- What stands behind the prefix: the name, the arguments in their parentheses, and the rest. -/
def Body (rest : List UInt8) : Prop :=
  ∃ name spec args post, rest = name ++ byte '(' :: (args ++ byte ')' :: post) ∧ name ≠ [] ∧
    tcmdSpecFind name = some spec ∧ byte ')' ∉ args ∧ args.length < 240 ∧ spec.argTypes.length = spec.numArgs ∧
    Arguments spec.argTypes args

theorem takeWhile_args {args post : List UInt8} (hfree : byte ')' ∉ args) :
    (args ++ byte ')' :: post).takeWhile (· != byte ')') = args := by
  have hpos : ∀ c ∈ args, (c != byte ')') = true := fun c hc => bne_iff_ne.2 fun h => hfree (h ▸ hc)
  rw [List.takeWhile_append_of_pos hpos, List.takeWhile_cons_of_neg (by simp), List.append_nil]

theorem quiet_bodyFindings (cmd : List UInt8) : Quiet (bodyFindings cmd) ↔
    (cmd.drop tcmdPrefix.length).count (byte '!') = 1 ∧ Body (cmd.drop tcmdPrefix.length) ∧
      Tag (text "@tssent=") cmd ∧ Tag (text "@tsexec=") cmd := by
  have hparen : isNameChar (byte '(') = false ∧ byte '(' ≠ byte ')' := by decide
  unfold bodyFindings
  dsimp only
  generalize cmd.drop tcmdPrefix.length = rest
  rw [quiet_append, quiet_bangFindings]
  refine and_congr_right fun _ => ?_
  rw [quiet_ite_error, quiet_append, quiet_ite_error, quiet_ite_error, quiet_ite_error, quiet_append, quiet_append,
    quiet_ite_error, quiet_tagFindings]
  simp only [quiet_nil, and_true, not_not, ne_eq, tcmdMaxArgsLen]
  constructor
  · rintro ⟨hne, hknown, hopen, hclose, ⟨hlen, hspec⟩, htags⟩
    obtain ⟨spec, hfind⟩ : ∃ spec, tcmdSpecFind (rest.takeWhile isNameChar) = some spec :=
      Option.ne_none_iff_exists'.1 (by simpa using hknown)
    have htypes := (of_tcmdSpecFind hfind).2
    obtain ⟨tail, htail⟩ := List.head?_eq_some_iff.1 hopen
    rw [htail, List.mem_cons, or_iff_right (Ne.symm hparen.2)] at hclose
    obtain ⟨args, post, rfl, hfree⟩ := List.eq_append_cons_of_mem hclose
    rw [hfind, htail, List.tail_cons, takeWhile_args hfree] at hspec
    rw [htail, List.tail_cons, takeWhile_args hfree] at hlen
    refine ⟨⟨_, spec, args, post, ?_, hne, hfind, hfree, by omega, htypes, (quiet_specFindings htypes _).1 hspec⟩,
      htags⟩
    rw [← htail, List.takeWhile_append_dropWhile]
  · rintro ⟨⟨name, spec, args, post, rfl, hne, hfind, hfree, hlen, htypes, hargs⟩, htags⟩
    have hname := (of_tcmdSpecFind hfind).1
    have htake : (name ++ byte '(' :: (args ++ byte ')' :: post)).takeWhile isNameChar = name := by
      rw [List.takeWhile_append_of_pos hname, List.takeWhile_cons_of_neg (by rw [hparen.1]; nofun), List.append_nil]
    have hdrop : (name ++ byte '(' :: (args ++ byte ')' :: post)).dropWhile isNameChar
        = byte '(' :: (args ++ byte ')' :: post) := by
      rw [List.dropWhile_append_of_pos hname, List.dropWhile_cons_of_neg (by rw [hparen.1]; nofun)]
    rw [htake, hdrop, hfind, List.tail_cons, takeWhile_args hfree]
    exact ⟨hne, by simp, rfl, by simp, ⟨by omega, (quiet_specFindings htypes args).2 hargs⟩, htags⟩

theorem quiet_telecommandFindings (cmd : List UInt8) : Quiet (telecommandFindings cmd) ↔ Telecommand cmd := by
  unfold telecommandFindings Telecommand
  rw [quiet_append, quiet_append, quiet_lengthFindings, quiet_dangerFindings, quiet_ite_error, quiet_bodyFindings]
  constructor
  · rintro ⟨⟨hlen, hdanger⟩, hpre, hbang, ⟨name, spec, args, post, hrest, hbody⟩, htags⟩
    rw [not_or, Bool.not_eq_false] at hpre
    obtain ⟨rest, rfl⟩ := List.isPrefixOf_iff_prefix.1 hpre.2
    rw [List.drop_left] at hrest
    exact ⟨hlen, ⟨name, spec, args, post, by rw [hrest], hbody⟩, hbang, htags.1, htags.2, hdanger⟩
  · rintro ⟨hlen, ⟨name, spec, args, post, rfl, hbody⟩, hbang, hsent, hexec, hdanger⟩
    refine ⟨⟨hlen, hdanger⟩, ?_, hbang, ⟨name, spec, args, post, List.drop_left, hbody⟩, hsent, hexec⟩
    rw [not_or, Bool.not_eq_false]
    refine ⟨?_, List.isPrefixOf_iff_prefix.2 (List.prefix_append _ _)⟩
    rw [List.length_append, List.length_append, List.length_cons]
    omega

/-- **Lint decides the grammar**: a command that is not empty and no `SSO+` line is below an error exactly when it is
a telecommand of the grammar, and it is a danger exactly when a blacklisted substring occurs in it. -/
theorem severity_lt_error_iff {cmd : List UInt8} (hne : cmd ≠ []) (hplain : isDirected cmd = false) :
    ((severity cmd).rank < Severity.error.rank ↔ Telecommand cmd) ∧
      (severity cmd = .danger ↔ ∃ b ∈ tcmdDangerousSubstrings, b.1 <:+: cmd) := by
  have htel : telecommand cmd = .ok cmd := if_pos hplain
  have hfind : findings cmd = telecommandFindings cmd := by rw [findings, if_neg hne, htel]
  refine ⟨?_, ?_⟩
  · rw [← quiet_telecommandFindings, ← hfind]
    exact rank_severity_lt cmd (by decide)
  · rw [severity_eq_danger_iff, Blacklisted, htel]
    constructor
    · rintro ⟨wire, hwire, h⟩
      cases hwire
      exact h
    · exact fun h => ⟨cmd, rfl, h⟩

theorem severity_lt_error_iff_hello :
    ((severity (text "CTS1+hello_world()!")).rank < Severity.error.rank ↔ Telecommand (text "CTS1+hello_world()!")) ∧
      (severity (text "CTS1+hello_world()!") = .danger ↔
        ∃ b ∈ tcmdDangerousSubstrings, b.1 <:+: text "CTS1+hello_world()!") :=
  severity_lt_error_iff (by decide) (by decide)

/-- The empty string lints clean and is no telecommand; a tag without a number passes beside one with a number. -/
theorem severity_nil_and_spare_tag :
    (¬ ∀ cmd, isDirected cmd = false → ((severity cmd).rank < Severity.error.rank ↔ Telecommand cmd)) ∧
      severity (text "CTS1+hello_world()@tssent=x@tssent=5!") = .ok ∧ directiveNumber (text "x@tssent=5!") = none := by
  refine ⟨fun h => ?_, severity_of_findings_eq_nil (by decide +kernel), by decide⟩
  have hclean : (severity []).rank < Severity.error.rank := by decide
  obtain ⟨-, ⟨name, spec, args, rest, hcmd, -⟩, -⟩ := (h [] (by decide)).1 hclean
  have hlen := congrArg List.length hcmd
  rw [List.length_append] at hlen
  exact absurd hlen (by rw [List.length_append, List.length_cons, List.length_nil]; omega)

end SimpleSatOps.TcmdGrammar
