import SimpleSatOps.Proto.TcmdClean
import SimpleSatOps.Ui.AutoTcmd.FailClosed

/-!
# Commands that lint clean are sent

* `keyed_of_ok` : a command that lints clean is keyed at every clock;
* `sends_of_due`, `sends_of_cmdIdx_ne` : the tick sends it when it is due, and does not go on without;
* `clean_send` : what it sends fits into a frame and lints clean;
* `clean_run` : so does everything a run sends.
-/

namespace SimpleSatOps.AutoTcmdModal
open TxHandoff SsoPseudo TcmdCommand

/-- The pass is over for the tick. -/
def TickEnv.PassOver (ses : Session) (env : TickEnv) : Prop :=
  ses.testingMode = false ∧ env.elevation < 0 ∧ 1 / 2 < env.minutesUntilVisible

variable {ses : Session} {s : Operator} {env : TickEnv} {cmd : List UInt8}

theorem keyed_of_ok (hok : severity cmd = .ok) (ses : Session) {utcMs : Int64} (hnow : ThirteenDigits utcMs) :
    Keyed (expansion ses utcMs cmd) ∧ severity (expansion ses utcMs cmd).out = .ok := by
  obtain ⟨hst, hlen, hclean⟩ := clean_expansion hok ⟨utcMs, ses.passTssentMs⟩ hnow
  exact ⟨⟨hst, hlen⟩, hclean⟩

theorem expansion_of_plain (hok : severity cmd = .ok) (hplain : isDirected cmd = false) (utcMs : Int64) :
    (expansion ses utcMs cmd).out = cmd := by
  have hlen := length_le_of_ok hok hplain
  unfold expansion ssoPseudoExpand
  rw [if_pos hplain]
  exact List.take_of_length_le (hlen.trans (by decide))

/-- A command that is keyed is sent when it is due. -/
theorem sends_of_due (hdue : Due env s) (hsdr : ses.withSdr = true) (hpass : ¬env.PassOver ses)
    (hkeyed : Keyed (expansion ses env.utcMs (s.auto.cmds.getD s.auto.cmdIdx []))) :
    (autoTcmdTick ses env s).run.sends =
      s.run.sends ++ [⟨env.utcMs, (expansion ses env.utcMs (s.auto.cmds.getD s.auto.cmdIdx [])).out⟩] := by
  have hactive : ¬s.active = false := by
    rw [hdue.active]
    nofun
  have hwith : ¬ses.withSdr = false := by
    rw [hsdr]
    nofun
  have hfree : ¬s.handoff.pending = true := by
    rw [hdue.free]
    nofun
  have hover : ¬(ses.testingMode = false ∧ env.elevation < 0 ∧ 1 / 2 < env.minutesUntilVisible) := hpass
  have hst : ¬((expansion ses env.utcMs (s.auto.cmds.getD s.auto.cmdIdx [])).status ≠ .ok ∧
      (expansion ses env.utcMs (s.auto.cmds.getD s.auto.cmdIdx [])).status ≠ .notPseudo) := by
    rintro ⟨hne, hne'⟩
    exact hkeyed.1.elim hne hne'
  unfold autoTcmdTick
  dsimp only
  rw [if_neg hactive, if_neg (not_not.mpr hdue.running), if_neg hover, if_neg (Nat.not_le.mpr hdue.more), if_neg hwith,
    if_neg (not_lt.mpr hdue.time), if_neg hfree, if_neg hst, if_neg (Nat.not_lt.mpr hkeyed.2)]
  -- the buffer of the request is larger than any frame
  have hcut : (s.auto.request (expansion ses env.utcMs (s.auto.cmds.getD s.auto.cmdIdx []))
      (s.auto.cmds.getD s.auto.cmdIdx [])).payload =
        (expansion ses env.utcMs (s.auto.cmds.getD s.auto.cmdIdx [])).out :=
    List.take_of_length_le (hkeyed.2.trans (by decide))
  rw [← hcut]

/-- The tick does not go on without sending a command that is keyed. -/
theorem sends_of_cmdIdx_ne (hkeyed : Keyed (expansion ses env.utcMs (s.auto.cmds.getD s.auto.cmdIdx [])))
    (hne : (autoTcmdTick ses env s).auto.cmdIdx ≠ s.auto.cmdIdx) :
    (autoTcmdTick ses env s).run.sends =
      s.run.sends ++ [⟨env.utcMs, (expansion ses env.utcMs (s.auto.cmds.getD s.auto.cmdIdx [])).out⟩] := by
  generalize ht : autoTcmdTick ses env s = t at hne ⊢
  have hstep : TickStep ses env s t := ht ▸ tickStep_of ses env s
  cases hstep with
  | same => exact absurd rfl hne
  | passOver hactive hstate => exact absurd rfl hne
  | done hactive hstate hidx => exact absurd rfl hne
  | stopped hactive hstate => exact absurd rfl hne
  | skipped hdue hskip => exact absurd hkeyed hskip
  | sent hdue req hkeyed' hpayload next => rw [← hpayload]

/-- **A command that lints clean is transmitted clean.** At every clock the tick finds a telecommand that fits into a
frame and lints clean as well, sends it when it is due and does not pass over it. -/
theorem clean_send (hok : severity cmd = .ok) (ses : Session) (env : TickEnv) (hnow : ThirteenDigits env.utcMs) :
    let wire := (expansion ses env.utcMs cmd).out
    wire.length ≤ TxBurst.tcmdRfMaxLen ∧ severity wire = .ok ∧ (isDirected cmd = false → wire = cmd) ∧
      ∀ s : Operator, s.auto.cmds[s.auto.cmdIdx]? = some cmd →
        ((autoTcmdTick ses env s).auto.cmdIdx ≠ s.auto.cmdIdx →
          (autoTcmdTick ses env s).run.sends = s.run.sends ++ [⟨env.utcMs, wire⟩]) ∧
        (Due env s → ses.withSdr = true → ¬env.PassOver ses →
          (autoTcmdTick ses env s).run.sends = s.run.sends ++ [⟨env.utcMs, wire⟩]) := by
  intro wire
  obtain ⟨hkeyed, hclean⟩ := keyed_of_ok hok ses hnow
  refine ⟨hkeyed.2, hclean, fun hplain => expansion_of_plain hok hplain env.utcMs, fun s hcmd => ?_⟩
  have hraw : s.auto.cmds.getD s.auto.cmdIdx [] = cmd := by
    rw [List.getD_eq_getElem?_getD, hcmd]
    rfl
  subst hraw
  exact ⟨sends_of_cmdIdx_ne hkeyed, fun hdue hsdr hpass => sends_of_due hdue hsdr hpass hkeyed⟩

/-- A pass whose clock reads 1700000000000 ms. -/
def cleanSession : Session := { benchSession with passTssentMs := 1700000000000 }

/-- The tick sends the time command of an `SSO+` line. -/
theorem clean_send_sync :
    let s := run zeroHash benchConfig cleanSession (startRun (steadyFile (text "SSO+sync_sat_time_to_ground()!\n")))
    (autoTcmdTick cleanSession ⟨0, 1700000000123, 0, 0⟩ s).run.sends =
      [⟨1700000000123, text "CTS1+set_system_time(1700000000623)@tssent=1700000000000!"⟩] := by
  intro s
  have hok : severity (text "SSO+sync_sat_time_to_ground()!") = .ok := by decide +kernel
  obtain ⟨-, -, -, hsent⟩ := clean_send hok cleanSession ⟨0, 1700000000123, 0, 0⟩ (by decide)
  have hstate : (s.active = true ∧ s.auto.state = .running ∧ s.auto.cmdIdx < s.auto.nCommands ∧ s.auto.nextSendNs ≤ 0 ∧
      s.handoff.pending = false) ∧ s.auto.cmds[s.auto.cmdIdx]? = some (text "SSO+sync_sat_time_to_ground()!") ∧
      s.run.sends = [] := by
    decide +kernel
  obtain ⟨⟨hactive, hrunning, hmore, htime, hfree⟩, hcmd, hnone⟩ := hstate
  rw [(hsent s hcmd).2 ⟨hactive, hrunning, hmore, htime, hfree⟩ rfl (fun h => absurd h.1 (by decide)), hnone]
  decide +kernel

/-! ## Whole runs -/

theorem Sent.exists_raw {raws : List (List UInt8)} {sends : List Send} (h : Sent ses raws sends) {send : Send}
    (hsend : send ∈ sends) : ∃ raw ∈ raws, Carries ses raw send := by
  induction h with
  | nil => exact absurd hsend List.not_mem_nil
  | cons hc _ ih =>
      rcases List.mem_cons.mp hsend with rfl | hsend
      · exact ⟨_, List.mem_cons_self, hc⟩
      · obtain ⟨raw, hraw, hcarries⟩ := ih hsend
        exact ⟨raw, List.mem_cons_of_mem _ hraw, hcarries⟩

section Runs
variable (sha1 : List UInt8 → Bytes 20) (cfg : Config)

theorem clocks_step (hp : Placed s) (h : Inv ses s) {a : Action}
    (hclock : ∀ env, a = .tick env → ThirteenDigits env.utcMs)
    (hsends : ∀ send ∈ s.run.sends, ThirteenDigits send.utcMs) :
    ∀ send ∈ (step sha1 cfg ses s a).run.sends, ThirteenDigits send.utcMs := by
  by_cases htick : ∃ env, a = .tick env
  · obtain ⟨env, rfl⟩ := htick
    rcases stages_tickStep (tickStep_of ses env s) with ⟨-, hrun⟩ | ⟨-, req, -, hrun⟩
    · have hrun : (step sha1 cfg ses s (.tick env)).run = s.run := hrun
      rwa [hrun]
    · have hrun : (step sha1 cfg ses s (.tick env)).run.sends = s.run.sends ++ [⟨env.utcMs, req.payload⟩] :=
        congrArg Run.sends hrun
      rw [hrun, List.forall_mem_append, List.forall_mem_singleton]
      exact ⟨hsends, hclock env rfl⟩
  · rcases (keepsPlace_step sha1 cfg hp h fun env heq => htick ⟨env, heq⟩).2 with ⟨hrun, -⟩ | hbegins
    · rwa [hrun]
    · obtain ⟨-, -, -, -, -, hrun⟩ := hbegins
      rw [hrun]
      exact fun _ hmem => absurd hmem List.not_mem_nil

theorem clocks_run {actions : List Action} (hclocks : ∀ env, .tick env ∈ actions → ThirteenDigits env.utcMs) :
    ∀ send ∈ (run sha1 cfg ses actions).run.sends, ThirteenDigits send.utcMs := by
  induction actions using List.reverseRecOn with
  | nil => exact fun _ hmem => absurd hmem List.not_mem_nil
  | append_singleton actions a ih =>
      have hstep : run sha1 cfg ses (actions ++ [a]) = step sha1 cfg ses (run sha1 cfg ses actions) a := by
        unfold run
        rw [List.foldl_append]
        rfl
      rw [hstep]
      refine clocks_step sha1 cfg (placed_run sha1 cfg ses actions) (inv_run sha1 cfg actions) ?_ (ih ?_)
      · rintro env rfl
        exact hclocks env (List.mem_append_right _ (List.mem_singleton_self _))
      · exact fun env hmem => hclocks env (List.mem_append_left _ hmem)

/-- **An agenda that lints clean is transmitted clean**, in any run: each telecommand that is staged fits and lints
clean, and a run that is done has sent every command as often as it was to be repeated. -/
theorem clean_run (ses : Session) {actions : List Action}
    (hclocks : ∀ env, .tick env ∈ actions → ThirteenDigits env.utcMs)
    (hok : ∀ cmd ∈ (run sha1 cfg ses actions).run.commands, severity cmd = .ok) :
    let s := run sha1 cfg ses actions
    (∀ send ∈ s.run.sends, send.payload.length ≤ TxBurst.tcmdRfMaxLen ∧ severity send.payload = .ok) ∧
      (s.auto.state = .done → Sent ses (s.run.commands.flatMap (List.replicate s.run.repeats)) s.run.sends) := by
  intro s
  have h : Inv ses s := inv_run sha1 cfg actions
  have hclocked : ∀ send ∈ s.run.sends, ThirteenDigits send.utcMs := clocks_run sha1 cfg hclocks
  have hagenda : agenda ses s.run.commands s.run.repeats = s.run.commands.flatMap (List.replicate s.run.repeats) := by
    unfold agenda
    rw [List.filter_eq_self.mpr]
    intro cmd hcmd
    rw [keyed_iff 1700000000000]
    exact (keyed_of_ok (hok cmd hcmd) ses (by decide)).1
  constructor
  · intro send hsend
    obtain ⟨raws, hpre, hsent⟩ := h.pre
    obtain ⟨raw, hraw, -, hpayload⟩ := hsent.exists_raw hsend
    have hmem : raw ∈ s.run.commands := by
      have hall : raw ∈ s.run.commands.flatMap (List.replicate s.run.repeats) := hagenda ▸ hpre.subset hraw
      obtain ⟨cmd, hcmd, hrep⟩ := List.mem_flatMap.mp hall
      rwa [List.eq_of_mem_replicate hrep]
    obtain ⟨hkeyed, hclean⟩ := keyed_of_ok (hok raw hmem) ses (hclocked send hsend)
    rw [hpayload]
    exact ⟨hkeyed.2, hclean⟩
  · intro hdone
    rw [← hagenda]
    exact h.done hdone

end Runs

end SimpleSatOps.AutoTcmdModal
