import SimpleSatOps.Ui.AutoTcmd.Steps

/-!
# The agenda is sent in order

* `agenda` : what a complete run stages; `agendaUpTo` : the part of it before a position;
* `Progress` : a run stands where its counters say;
* `inv_step`, `inv_run` : it does so whatever the operator does;
* `agenda_run` : no send is lost, doubled or out of turn.
-/

namespace SimpleSatOps.AutoTcmdModal
open SimpleSatOps.AutoTcmd (loaded)
open TxHandoff SsoPseudo TcmdGate

/-! ## Positions in an agenda -/

section Position
variable (ses : Session)

/-- A command that is keyed, under whatever clock. -/
def keyed (raw : List UInt8) : Bool := decide (Keyed (expansion ses 0 raw))

/-- Every command that is keyed, `r` times. -/
def agenda (cmds : List (List UInt8)) (r : ℕ) : List (List UInt8) :=
  (cmds.filter (keyed ses)).flatMap (List.replicate r)

/-- What comes before send `j` of command `i`. -/
def agendaUpTo (cmds : List (List UInt8)) (r i j : ℕ) : List (List UInt8) :=
  agenda ses (cmds.take i) r ++ List.replicate j (cmds.getD i [])

variable {ses} {cmds : List (List UInt8)} {r i j : ℕ}

theorem keyed_iff (t : Int64) (raw : List UInt8) : keyed ses raw = true ↔ Keyed (expansion ses t raw) := by
  unfold keyed
  rw [decide_eq_true_iff]
  exact keyed_expansion_iff ses 0 t raw

theorem agenda_append (cmds cmds' : List (List UInt8)) (r : ℕ) :
    agenda ses (cmds ++ cmds') r = agenda ses cmds r ++ agenda ses cmds' r := by
  unfold agenda
  rw [List.filter_append, List.flatMap_append]

theorem agenda_singleton (raw : List UInt8) (r : ℕ) :
    agenda ses [raw] r = if keyed ses raw = true then List.replicate r raw else [] := by
  unfold agenda
  split_ifs with h <;> simp [h]

theorem agenda_take_succ (hi : i < cmds.length) (r : ℕ) :
    agenda ses (cmds.take (i + 1)) r =
      agenda ses (cmds.take i) r ++
        if keyed ses (cmds.getD i []) = true then List.replicate r (cmds.getD i []) else [] := by
  have hget : cmds.getD i [] = cmds[i] := by simp [hi]
  rw [List.take_succ_eq_append_getElem hi, agenda_append, agenda_singleton, hget]

theorem agendaUpTo_zero (r : ℕ) : agendaUpTo ses cmds r 0 0 = [] := rfl

theorem agendaUpTo_all (hi : cmds.length ≤ i) : agendaUpTo ses cmds r i 0 = agenda ses cmds r := by
  unfold agendaUpTo
  rw [List.take_of_length_le hi, List.replicate_zero, List.append_nil]

/-- A skipped command leaves the position where it is. -/
theorem agendaUpTo_skip (hi : i < cmds.length) (hskip : keyed ses (cmds.getD i []) = false) :
    agendaUpTo ses cmds r (i + 1) 0 = agendaUpTo ses cmds r i 0 := by
  unfold agendaUpTo
  rw [agenda_take_succ hi, hskip, if_neg (by decide), List.append_nil]
  rfl

/-- A send moves the position on by one. -/
theorem agendaUpTo_send (hi : i < cmds.length) (hkeyed : keyed ses (cmds.getD i []) = true) (hj : j < r) :
    agendaUpTo ses cmds r (if r ≤ j + 1 then i + 1 else i) (if r ≤ j + 1 then 0 else j + 1) =
      agendaUpTo ses cmds r i j ++ [cmds.getD i []] := by
  have hsucc : List.replicate (j + 1) (cmds.getD i []) = List.replicate j (cmds.getD i []) ++ [cmds.getD i []] :=
    List.replicate_succ'
  unfold agendaUpTo
  split_ifs with hlast
  · obtain rfl : r = j + 1 := by omega
    rw [agenda_take_succ hi, if_pos hkeyed, List.replicate_zero, List.append_nil, hsucc, List.append_assoc]
  · rw [hsucc, List.append_assoc]

/-- Every position is on the way to the end. -/
theorem agendaUpTo_prefix (hj : j ≤ r) (hkeyed : 0 < j → i < cmds.length ∧ keyed ses (cmds.getD i []) = true) :
    agendaUpTo ses cmds r i j <+: agenda ses cmds r := by
  have htake : agenda ses (cmds.take i) r <+: agenda ses cmds r :=
    ⟨agenda ses (cmds.drop i) r, by rw [← agenda_append, List.take_append_drop]⟩
  rcases Nat.eq_zero_or_pos j with rfl | hpos
  · unfold agendaUpTo
    rw [List.replicate_zero, List.append_nil]
    exact htake
  · obtain ⟨hi, hk⟩ := hkeyed hpos
    have hfull : agenda ses (cmds.take (i + 1)) r <+: agenda ses cmds r :=
      ⟨agenda ses (cmds.drop (i + 1)) r, by rw [← agenda_append, List.take_append_drop]⟩
    refine List.IsPrefix.trans ?_ hfull
    rw [agenda_take_succ hi, if_pos hk]
    unfold agendaUpTo
    refine (List.prefix_append_right_inj _).mpr ⟨List.replicate (r - j) (cmds.getD i []), ?_⟩
    rw [← List.replicate_add, Nat.add_sub_cancel' hj]

/-- A send carries a command: the expansion it has at its time. -/
def Carries (ses : Session) (raw : List UInt8) (send : Send) : Prop :=
  Keyed (expansion ses send.utcMs raw) ∧ send.payload = (expansion ses send.utcMs raw).out

/-- The sends carry these commands, one by one. -/
def Sent (ses : Session) (raws : List (List UInt8)) (sends : List Send) : Prop := List.Forall₂ (Carries ses) raws sends

theorem Sent.append {raws : List (List UInt8)} {sends : List Send} (h : Sent ses raws sends) {raw : List UInt8}
    {send : Send} (hc : Carries ses raw send) : Sent ses (raws ++ [raw]) (sends ++ [send]) :=
  List.rel_append h (.cons hc .nil)

end Position

/-! ## The invariant -/

/-- The states between the start of a run and its end. -/
def State.InRun (st : State) : Prop := st = .running ∨ st = .pausePrompt ∨ st = .paused ∨ st = .resumePrompt

instance : DecidablePred State.InRun := fun st => by
  unfold State.InRun
  infer_instance

/-- The run has staged what comes before its position. -/
structure Progress (ses : Session) (a : AutoTcmd) (r : Run) : Prop where
  commands : a.commands = some r.commands
  repeats : a.repeatsTotal = r.repeats
  repeatIdx : a.repeatIdx < r.repeats
  begun : 0 < a.repeatIdx → a.cmdIdx < r.commands.length ∧ keyed ses (r.commands.getD a.cmdIdx []) = true
  sends : Sent ses (agendaUpTo ses r.commands r.repeats a.cmdIdx a.repeatIdx) r.sends

/-- What holds in every state. -/
structure Inv (ses : Session) (s : Operator) : Prop where
  progress : s.auto.state.InRun → s.auto.commands.isSome → Progress ses s.auto s.run
  pre : ∃ raws, raws <+: agenda ses s.run.commands s.run.repeats ∧ Sent ses raws s.run.sends
  total : s.auto.sendsTotal = if s.auto.state = .setup then 0 else s.run.sends.length
  done : s.auto.state = .done → Sent ses (agenda ses s.run.commands s.run.repeats) s.run.sends

variable {ses : Session} {s : Operator}

theorem Progress.pre {a : AutoTcmd} {r : Run} (h : Progress ses a r) :
    ∃ raws, raws <+: agenda ses r.commands r.repeats ∧ Sent ses raws r.sends :=
  ⟨_, agendaUpTo_prefix h.repeatIdx.le h.begun, h.sends⟩

theorem Progress.sameRun {a b : AutoTcmd} {r : Run} (hb : b.SameRun a) (h : Progress ses a r) : Progress ses b r := by
  rw [hb]
  exact ⟨h.commands, h.repeats, h.repeatIdx, h.begun, h.sends⟩

/-- A run that has just begun. -/
theorem Progress.start {a : AutoTcmd} {cmds : List (List UInt8)} {r : ℕ} (hcmds : a.commands = some cmds)
    (hrepeats : a.repeatsTotal = r) (hr : 1 ≤ r) (hidx : a.cmdIdx = 0) (hrepeat : a.repeatIdx = 0) :
    Progress ses a ⟨cmds, r, []⟩ where
  commands := hcmds
  repeats := hrepeats
  repeatIdx := by rw [hrepeat]; exact hr
  begun := fun h => absurd h (by rw [hrepeat]; decide)
  sends := by
    rw [hidx, hrepeat, agendaUpTo_zero]
    exact .nil

theorem Progress.skip {a : AutoTcmd} {r : Run} (h : Progress ses a r) (hi : a.cmdIdx < r.commands.length)
    (hskip : keyed ses (r.commands.getD a.cmdIdx []) = false) (now : ℤ) : Progress ses (a.skip now) r where
  commands := h.commands
  repeats := h.repeats
  repeatIdx := Nat.zero_lt_of_lt h.repeatIdx
  begun := fun h0 => absurd h0 (Nat.lt_irrefl 0)
  sends := by
    -- a command that is not keyed has not been sent
    have hzero : a.repeatIdx = 0 := Nat.eq_zero_of_not_pos fun hpos => absurd (h.begun hpos).2 (by rw [hskip]; decide)
    have hsends := h.sends
    rw [hzero] at hsends
    change Sent ses (agendaUpTo ses r.commands r.repeats (a.cmdIdx + 1) 0) r.sends
    rw [agendaUpTo_skip hi hskip]
    exact hsends

theorem Progress.sent {a : AutoTcmd} {r : Run} (h : Progress ses a r) (hi : a.cmdIdx < r.commands.length)
    (hkeyed : keyed ses (r.commands.getD a.cmdIdx []) = true) {send : Send}
    (hsend : Carries ses (r.commands.getD a.cmdIdx []) send) (next : ℤ) :
    Progress ses (a.sent next) { r with sends := r.sends ++ [send] } where
  commands := h.commands
  repeats := h.repeats
  repeatIdx := by
    change (if a.repeatsTotal ≤ a.repeatIdx + 1 then 0 else a.repeatIdx + 1) < r.repeats
    have hlt := h.repeatIdx
    rw [h.repeats]
    split_ifs <;> omega
  begun := by
    intro hpos
    change 0 < (if a.repeatsTotal ≤ a.repeatIdx + 1 then 0 else a.repeatIdx + 1) at hpos
    change (if a.repeatsTotal ≤ a.repeatIdx + 1 then a.cmdIdx + 1 else a.cmdIdx) < r.commands.length ∧
      keyed ses (r.commands.getD (if a.repeatsTotal ≤ a.repeatIdx + 1 then a.cmdIdx + 1 else a.cmdIdx) []) = true
    split_ifs at hpos ⊢
    · exact absurd hpos (Nat.lt_irrefl 0)
    · exact ⟨hi, hkeyed⟩
  sends := by
    have hsends := h.sends.append hsend
    rw [← agendaUpTo_send hi hkeyed h.repeatIdx, ← h.repeats] at hsends
    rw [← h.repeats]
    exact hsends

/-! ## Every step keeps it -/

theorem inv_init (ses : Session) : Inv ses init where
  progress := fun h => absurd h (by decide)
  pre := ⟨[], List.nil_prefix, .nil⟩
  total := rfl
  done := fun h => absurd h (by decide)

/-- The modal stays as it is but for the state of the run, and perhaps closes. -/
theorem Inv.setState (h : Inv ses s) {st : State} (hsetup : s.auto.state ≠ .setup) (hst : st ≠ .setup)
    (hrun : st.InRun → s.auto.state.InRun)
    (hdone : st = .done → Sent ses (agenda ses s.run.commands s.run.repeats) s.run.sends) :
    Inv ses (s.setState st) where
  progress := fun hin hcmds =>
    have hp := h.progress (hrun hin) hcmds
    ⟨hp.commands, hp.repeats, hp.repeatIdx, hp.begun, hp.sends⟩
  pre := h.pre
  total := by
    have htotal := h.total
    rw [if_neg hsetup] at htotal
    change s.auto.sendsTotal = if st = .setup then 0 else s.run.sends.length
    rw [if_neg hst, htotal]
  done := hdone

/-- The invariant does not look at the modals. -/
theorem Inv.of_eq (h : Inv ses s) {t : Operator} (hauto : t.auto = s.auto) (hrun : t.run = s.run) : Inv ses t := by
  obtain ⟨handoff, compose, active, auto, r⟩ := t
  cases hauto
  cases hrun
  exact ⟨h.progress, h.pre, h.total, h.done⟩

theorem Inv.freeCommands (h : Inv ses s) {t : Operator} (hauto : t.auto = s.auto.freeCommands) (hrun : t.run = s.run) :
    Inv ses t := by
  obtain ⟨handoff, compose, active, auto, r⟩ := t
  cases hauto
  cases hrun
  exact ⟨fun _ hcmds => absurd hcmds Bool.false_ne_true, h.pre, h.total, h.done⟩

/-- A run begins: at the top of the commands that are loaded. -/
theorem inv_start (hsome : s.auto.commands.isSome) {a : AutoTcmd} {r : ℕ} (hcmds : a.commands = s.auto.commands)
    (hrepeats : a.repeatsTotal = r) (hr : 1 ≤ r) (hidx : a.cmdIdx = 0) (hrepeat : a.repeatIdx = 0)
    (htotal : a.sendsTotal = 0) (hstate : a.state = .running) :
    Inv ses { s with auto := a, run := ⟨s.auto.cmds, r, []⟩ } := by
  obtain ⟨cmds, hsome⟩ := Option.isSome_iff_exists.mp hsome
  have hlist : s.auto.cmds = cmds := by
    unfold AutoTcmd.cmds
    rw [hsome, Option.getD_some]
  rw [hlist]
  refine ⟨fun _ _ => .start (hcmds.trans hsome) hrepeats hr hidx hrepeat, ⟨[], List.nil_prefix, .nil⟩, ?_,
    fun hdone => ?_⟩
  · change a.sendsTotal = if a.state = .setup then 0 else 0
    rw [ite_self, htotal]
  · exact absurd (hstate.symm.trans hdone) (by decide)

theorem inv_keyStep (h : Inv ses s) (hsome : s.auto.commands.isSome) {now key : ℤ} {t : Operator}
    (hstep : KeyStep ses now key s t) : Inv ses t := by
  cases hstep with
  | same => exact h
  | edited hform a ha =>
      refine ⟨fun hin _ => ?_, h.pre, ?_, fun hdone => h.done (ha.state_eq ▸ hdone)⟩
      · exact (h.progress (ha.state_eq ▸ hin) hsome).sameRun ha
      · change a.sendsTotal = if a.state = .setup then 0 else s.run.sends.length
        rw [ha.sendsTotal_eq, ha.state_eq]
        exact h.total
  | started hform hcmds hgate repeats hrepeats interval =>
      exact inv_start hsome rfl rfl hrepeats rfl rfl rfl rfl
  | interrupted hstate =>
      exact h.setState (by simp [hstate]) (by decide) (fun _ => .inl hstate) (fun hdone => absurd hdone (by decide))
  | continued hstate =>
      exact h.setState (by simp [hstate]) (by decide) (fun _ => .inr (.inl hstate))
        (fun hdone => absurd hdone (by decide))
  | stopped hstate =>
      refine h.setState ?_ (by decide) (fun hin => absurd hin (by decide)) (fun hdone => absurd hdone (by decide))
      rcases hstate with hstate | hstate <;> simp [hstate]
  | parked hstate =>
      have hnew : Inv ses (s.setState .paused) := by
        refine h.setState ?_ (by decide) (fun _ => ?_) (fun hdone => absurd hdone (by decide))
        · rcases hstate with hstate | hstate <;> simp [hstate]
        · exact hstate.elim (fun h => .inr (.inl h)) (fun h => .inr (.inr (.inr h)))
      exact hnew.of_eq rfl rfl
  | resumed hstate hkey =>
      have hnew : Inv ses (s.setState .running) := h.setState (by simp [hstate]) (by decide)
        (fun _ => .inr (.inr (.inr hstate))) (fun hdone => absurd hdone (by decide))
      exact ⟨fun hin hcmds =>
        have hp := hnew.progress hin hcmds
        ⟨hp.commands, hp.repeats, hp.repeatIdx, hp.begun, hp.sends⟩, hnew.pre, hnew.total, hnew.done⟩
  | restarted hstate hkey =>
      have hp := h.progress (.inr (.inr (.inr hstate))) hsome
      exact inv_start hsome rfl rfl (Nat.succ_le_of_lt (hp.repeats ▸ Nat.zero_lt_of_lt hp.repeatIdx)) rfl rfl rfl rfl
  | closed hform =>
      unfold autoTcmdClose
      split_ifs
      · exact h.freeCommands rfl rfl
      · exact h.of_eq rfl rfl

theorem inv_openStep (h : Inv ses s) {env : OpenEnv} {t : Operator} (hstep : OpenStep ses env s t) : Inv ses t := by
  have hprompt : s.auto.state = .paused → Inv ses (s.setState .resumePrompt) := fun hparked =>
    h.setState (by simp [hparked]) (by decide) (fun _ => .inr (.inr (.inl hparked)))
      (fun hdone => absurd hdone (by decide))
  cases hstep with
  | same => exact h
  | prompted hactive hparked hcmds hwindow =>
      exact (hprompt hparked).of_eq rfl rfl
  | lost hasked hactive hparked hcmds hwindow => exact hprompt hparked
  | unloaded hactive hparked =>
      exact h.freeCommands rfl rfl
  | reloaded hactive hparked content hfile =>
      have hin : ¬State.setup.InRun := by decide
      exact ⟨fun h => absurd h hin, h.pre, rfl, nofun⟩
  | windowless hactive hparked content =>
      exact ⟨fun _ hcmds => absurd hcmds Bool.false_ne_true, h.pre, rfl, nofun⟩

theorem inv_tickStep (h : Inv ses s) (hloaded : s.active = true → s.auto.commands.isSome) {env : TickEnv}
    {t : Operator} (hstep : TickStep ses env s t) : Inv ses t := by
  have hkeep : ∀ {st : State}, s.auto.state = .running → st ≠ .setup → ¬st.InRun → st ≠ .done →
      Inv ses (s.setState st) := fun hstate hsetup hin hdone =>
    h.setState (by simp [hstate]) hsetup (fun h => absurd h hin) (fun h => absurd h hdone)
  have hcmdsOf : ∀ {r : Run}, Progress ses s.auto r → s.auto.cmds = r.commands := fun hp => by
    unfold AutoTcmd.cmds
    rw [hp.commands, Option.getD_some]
  cases hstep with
  | same => exact h
  | passOver hactive hstate => exact hkeep hstate (by decide) (by decide) (by decide)
  | stopped hactive hstate => exact hkeep hstate (by decide) (by decide) (by decide)
  | done hactive hstate hidx =>
      refine h.setState (by simp [hstate]) (by decide) (fun hin => absurd hin (by decide)) (fun _ => ?_)
      have hp := h.progress (.inl hstate) (hloaded hactive)
      have hsends := hp.sends
      have hend : s.run.commands.length ≤ s.auto.cmdIdx := by
        rw [← hcmdsOf hp]
        exact hidx
      -- behind the last command there is nothing half sent
      have hzero : s.auto.repeatIdx = 0 := Nat.eq_zero_of_not_pos fun hpos => absurd (hp.begun hpos).1 (by omega)
      rw [hzero, agendaUpTo_all hend] at hsends
      exact hsends
  | skipped hdue hkeyed =>
      have hp := h.progress (.inl hdue.running) (hloaded hdue.active)
      have hlist := hcmdsOf hp
      have hi : s.auto.cmdIdx < s.run.commands.length := by
        rw [← hlist]
        exact hdue.more
      rw [hlist, ← keyed_iff] at hkeyed
      have hskip := hp.skip hi (Bool.eq_false_of_not_eq_true hkeyed) env.nowNs
      exact ⟨fun _ _ => hskip, h.pre, h.total, h.done⟩
  | sent hdue req hkeyed hpayload next =>
      have hp := h.progress (.inl hdue.running) (hloaded hdue.active)
      have hlist := hcmdsOf hp
      have hi : s.auto.cmdIdx < s.run.commands.length := by
        rw [← hlist]
        exact hdue.more
      rw [hlist] at hkeyed hpayload
      have hcarries : Carries ses (s.run.commands.getD s.auto.cmdIdx []) ⟨env.utcMs, req.payload⟩ := ⟨hkeyed, hpayload⟩
      have hsent := hp.sent hi ((keyed_iff env.utcMs _).mpr hkeyed) hcarries next
      have htotal := h.total
      rw [if_neg (by simp [hdue.running])] at htotal
      refine ⟨fun _ _ => hsent, hsent.pre, ?_, fun hdone => ?_⟩
      · change s.auto.sendsTotal + 1 = if s.auto.state = .setup then 0 else (s.run.sends ++ [_]).length
        rw [if_neg (by simp [hdue.running]), htotal, List.length_append, List.length_singleton]
      · exact absurd (hdue.running.symm.trans hdone) (by decide)

section Runs
variable (sha1 : List UInt8 → Bytes 20) (cfg : Config)

theorem inv_step (hp : Placed s) (h : Inv ses s) (a : Action) : Inv ses (step sha1 cfg ses s a) := by
  cases a with
  | opened env => exact inv_openStep h (openStep_of ses env s)
  | key now key waiting =>
      rcases keyStep_of ses now s key waiting with heq | ⟨hactive, -, k, -, hstep⟩
      · rw [step_key_of_same sha1 cfg heq]
        exact h
      · exact inv_keyStep h (hp.loaded hactive) hstep
  | tick env => exact inv_tickStep h hp.loaded (tickStep_of ses env s)
  | composeOpen =>
      unfold step
      split_ifs
      · exact h
      · exact h.of_eq rfl rfl
  | composeClose => exact h.of_eq rfl rfl
  | handoff a => exact h.of_eq rfl rfl

theorem inv_run (actions : List Action) : Inv ses (run sha1 cfg ses actions) := by
  unfold run
  induction actions using List.reverseRecOn with
  | nil => exact inv_init ses
  | append_singleton actions a ih =>
      rw [List.foldl_append]
      exact inv_step sha1 cfg (placed_run sha1 cfg ses actions) ih a

end Runs

/-! ## What a run sends -/

/-- A telecommand that is no `SSO+` line goes out as it stands. -/
theorem Carries.payload_eq {raw : List UInt8} {send : Send} (h : Carries ses raw send)
    (hplain : isDirected raw = false) : send.payload = raw := by
  obtain ⟨⟨-, hlen⟩, hpayload⟩ := h
  have hout : (expansion ses send.utcMs raw).out = raw.take 511 := by
    unfold expansion ssoPseudoExpand
    rw [if_pos hplain]
    rfl
  have hmax : TxBurst.tcmdRfMaxLen = 215 := rfl
  rw [hout, List.length_take] at hlen
  rw [hpayload, hout, List.take_of_length_le (by omega)]

/-- A run stands at the top of the commands that are loaded. -/
def Begins (t : Operator) : Prop :=
  t.auto.state = .running ∧ t.auto.cmdIdx = 0 ∧ t.auto.repeatIdx = 0 ∧ t.auto.sendsTotal = 0 ∧
    1 ≤ t.auto.repeatsTotal ∧ t.run = ⟨t.auto.cmds, t.auto.repeatsTotal, []⟩

/-- The same agenda at the same place. -/
def SamePlace (s t : Operator) : Prop :=
  t.auto.commands = s.auto.commands ∧ t.auto.cmdIdx = s.auto.cmdIdx ∧ t.auto.repeatIdx = s.auto.repeatIdx ∧
    t.auto.repeatsTotal = s.auto.repeatsTotal ∧ t.auto.sendsTotal = s.auto.sendsTotal

instance (s t : Operator) : Decidable (SamePlace s t) := by
  unfold SamePlace
  infer_instance

/-- A run that is still under way stands at the same place. -/
def KeepsPlace (s t : Operator) : Prop := t.auto.state.InRun → t.auto.commands.isSome → SamePlace s t

theorem SamePlace.of_auto {t : Operator} (h : t.auto = s.auto) : SamePlace s t := by
  unfold SamePlace
  rw [h]
  exact ⟨rfl, rfl, rfl, rfl, rfl⟩

theorem KeepsPlace.of_auto {t : Operator} (h : t.auto = s.auto) : KeepsPlace s t := fun _ _ => .of_auto h

theorem keepsPlace_keyStep (h : Inv ses s) (hsome : s.auto.commands.isSome) {now key : ℤ} {t : Operator}
    (hstep : KeyStep ses now key s t) : t.handoff = s.handoff ∧ (t.run = s.run ∧ KeepsPlace s t ∨ Begins t) := by
  cases hstep with
  | same => exact ⟨rfl, .inl ⟨rfl, .of_auto rfl⟩⟩
  | edited hform a ha =>
      refine ⟨rfl, .inl ⟨rfl, fun hin hcmds => ?_⟩⟩
      change a.commands = _ ∧ a.cmdIdx = _ ∧ a.repeatIdx = _ ∧ a.repeatsTotal = _ ∧ a.sendsTotal = _
      rw [ha]
      exact ⟨rfl, rfl, rfl, rfl, rfl⟩
  | started hform hcmds hgate repeats hrepeats interval =>
      exact ⟨rfl, .inr ⟨rfl, rfl, rfl, rfl, hrepeats, rfl⟩⟩
  | interrupted hstate => exact ⟨rfl, .inl ⟨rfl, fun _ _ => ⟨rfl, rfl, rfl, rfl, rfl⟩⟩⟩
  | continued hstate => exact ⟨rfl, .inl ⟨rfl, fun _ _ => ⟨rfl, rfl, rfl, rfl, rfl⟩⟩⟩
  | stopped hstate => exact ⟨rfl, .inl ⟨rfl, fun _ _ => ⟨rfl, rfl, rfl, rfl, rfl⟩⟩⟩
  | parked hstate => exact ⟨rfl, .inl ⟨rfl, fun _ _ => ⟨rfl, rfl, rfl, rfl, rfl⟩⟩⟩
  | resumed hstate hkey => exact ⟨rfl, .inl ⟨rfl, fun _ _ => ⟨rfl, rfl, rfl, rfl, rfl⟩⟩⟩
  | restarted hstate hkey =>
      have hp := h.progress (.inr (.inr (.inr hstate))) hsome
      exact ⟨rfl, .inr ⟨rfl, rfl, rfl, rfl, Nat.succ_le_of_lt (hp.repeats ▸ Nat.zero_lt_of_lt hp.repeatIdx), rfl⟩⟩
  | closed hform =>
      unfold autoTcmdClose
      split_ifs
      · exact ⟨rfl, .inl ⟨rfl, fun _ hcmds => absurd hcmds Bool.false_ne_true⟩⟩
      · exact ⟨rfl, .inl ⟨rfl, .of_auto rfl⟩⟩

theorem keepsPlace_openStep {env : OpenEnv} {t : Operator} (hstep : OpenStep ses env s t) :
    t.handoff = s.handoff ∧ t.run = s.run ∧ KeepsPlace s t := by
  cases hstep with
  | same => exact ⟨rfl, rfl, .of_auto rfl⟩
  | prompted hactive hparked hcmds hwindow => exact ⟨rfl, rfl, fun _ _ => ⟨rfl, rfl, rfl, rfl, rfl⟩⟩
  | lost hasked hactive hparked hcmds hwindow => exact ⟨rfl, rfl, fun _ _ => ⟨rfl, rfl, rfl, rfl, rfl⟩⟩
  | unloaded hactive hparked => exact ⟨rfl, rfl, fun _ hcmds => absurd hcmds Bool.false_ne_true⟩
  | reloaded hactive hparked content hfile =>
      have hin : ¬State.setup.InRun := by decide
      exact ⟨rfl, rfl, fun h => absurd h hin⟩
  | windowless hactive hparked content => exact ⟨rfl, rfl, fun _ hcmds => absurd hcmds Bool.false_ne_true⟩

/-- A step that is no tick leaves the run where it is or begins it anew; the modal stages nothing. -/
theorem keepsPlace_step (sha1 : List UInt8 → Bytes 20) (cfg : Config) (hp : Placed s) (h : Inv ses s) {a : Action}
    (htick : ∀ env, a ≠ .tick env) :
    ((step sha1 cfg ses s a).handoff = s.handoff ∨ ∃ b, a = .handoff b) ∧
      ((step sha1 cfg ses s a).run = s.run ∧ KeepsPlace s (step sha1 cfg ses s a) ∨
        Begins (step sha1 cfg ses s a)) := by
  cases a with
  | opened env =>
      obtain ⟨hhandoff, hrun, hplace⟩ := keepsPlace_openStep (openStep_of ses env s)
      exact ⟨.inl hhandoff, .inl ⟨hrun, hplace⟩⟩
  | key now key waiting =>
      rcases keyStep_of ses now s key waiting with heq | ⟨hactive, -, k, -, hstep⟩
      · rw [step_key_of_same sha1 cfg heq]
        exact ⟨.inl rfl, .inl ⟨rfl, .of_auto rfl⟩⟩
      · obtain ⟨hhandoff, hplace⟩ := keepsPlace_keyStep h (hp.loaded hactive) hstep
        exact ⟨.inl hhandoff, hplace⟩
  | tick env => exact absurd rfl (htick env)
  | composeOpen =>
      unfold step
      split_ifs
      · exact ⟨.inl rfl, .inl ⟨rfl, .of_auto rfl⟩⟩
      · exact ⟨.inl rfl, .inl ⟨rfl, .of_auto rfl⟩⟩
  | composeClose => exact ⟨.inl rfl, .inl ⟨rfl, .of_auto rfl⟩⟩
  | handoff b => exact ⟨.inr ⟨b, rfl⟩, .inl ⟨rfl, .of_auto rfl⟩⟩

/-- A tick stages at most one request, when it is due, and records it. -/
theorem stages_tickStep {env : TickEnv} {t : Operator} (hstep : TickStep ses env s t) :
    t.handoff = s.handoff ∧ t.run = s.run ∨ Due env s ∧ ∃ req, t.handoff = s.handoff.stage req ∧
      t.run = { s.run with sends := s.run.sends ++ [⟨env.utcMs, req.payload⟩] } := by
  cases hstep with
  | same => exact .inl ⟨rfl, rfl⟩
  | passOver hactive hstate => exact .inl ⟨rfl, rfl⟩
  | done hactive hstate hidx => exact .inl ⟨rfl, rfl⟩
  | stopped hactive hstate => exact .inl ⟨rfl, rfl⟩
  | skipped hdue hkeyed => exact .inl ⟨rfl, rfl⟩
  | sent hdue req hkeyed hpayload next => exact .inr ⟨hdue, req, rfl, rfl⟩

/-- **The agenda is sent in order.** Whatever the operator does, what has been staged since the last start or restart
is a beginning of the agenda, each command that is keyed as often as it is to be repeated; it is counted, and it is
all of it when the run is done. A tick stages only when it is due. Nothing else touches the place of a run, but for a
start or restart, which begins at the top. -/
theorem agenda_run (sha1 : List UInt8 → Bytes 20) (cfg : Config) (ses : Session) (actions : List Action) :
    let s := run sha1 cfg ses actions
    (∃ raws, raws <+: agenda ses s.run.commands s.run.repeats ∧ Sent ses raws s.run.sends) ∧
    s.auto.sendsTotal = (if s.auto.state = .setup then 0 else s.run.sends.length) ∧
    (s.auto.state = .done → Sent ses (agenda ses s.run.commands s.run.repeats) s.run.sends) ∧
    (∀ env, let t := step sha1 cfg ses s (.tick env)
      t.handoff = s.handoff ∧ t.run = s.run ∨ Due env s ∧ ∃ req, t.handoff = s.handoff.stage req ∧
        t.run = { s.run with sends := s.run.sends ++ [⟨env.utcMs, req.payload⟩] }) ∧
    ∀ a, (∀ env, a ≠ .tick env) → let t := step sha1 cfg ses s a
      (t.handoff = s.handoff ∨ ∃ b, a = .handoff b) ∧ (t.run = s.run ∧ KeepsPlace s t ∨ Begins t) := by
  intro s
  have h : Inv ses s := inv_run sha1 cfg actions
  exact ⟨h.pre, h.total, h.done, fun env => stages_tickStep (tickStep_of ses env s),
    fun a htick => keepsPlace_step sha1 cfg (placed_run sha1 cfg ses actions) h htick⟩

end SimpleSatOps.AutoTcmdModal
