import SimpleSatOps.Ui.AutoTcmd.Modal

/-!
# What a step of the modal can do

* `KeyStep`, `OpenStep`, `TickStep` : the ways a key, an opening and a tick change the state, with what held before;
* `keyStep_of`, `openStep_of`, `tickStep_of` : there are no others;
* `Placed`, `placed_run` : which states go with an open modal;
* `keyed_expansion_iff` : whether a command is keyed does not hang on the clock.
-/

namespace SimpleSatOps.AutoTcmdModal
open SimpleSatOps.AutoTcmd (loaded)
open TxHandoff SsoPseudo TcmdGate

/-! ## Keys -/

/-- The two differ in the setup form alone. -/
def AutoTcmd.SameRun (b a : AutoTcmd) : Prop :=
  b = { a with
    power := b.power, repeats := b.repeats, intervalS := b.intervalS, allowTx := b.allowTx, focus := b.focus }

theorem AutoTcmd.SameRun.refl (a : AutoTcmd) : a.SameRun a := rfl

section Fields
variable {a b : AutoTcmd} (h : b.SameRun a)
include h

theorem AutoTcmd.SameRun.state_eq : b.state = a.state := (congrArg AutoTcmd.state h).trans rfl

theorem AutoTcmd.SameRun.commands_eq : b.commands = a.commands := (congrArg AutoTcmd.commands h).trans rfl

theorem AutoTcmd.SameRun.sendsTotal_eq : b.sendsTotal = a.sendsTotal := (congrArg AutoTcmd.sendsTotal h).trans rfl

end Fields

theorem AutoTcmd.SameRun.edit (a : AutoTcmd) (f : TextField → TextField) : (a.edit f).SameRun a := by
  unfold AutoTcmd.edit
  cases a.focus with
  | power => rfl
  | repeats => rfl
  | interval => rfl
  | allowTx => rfl

theorem AutoTcmd.SameRun.moveFocus (a : AutoTcmd) (f : Field) : (a.moveFocus f).SameRun a := by
  unfold AutoTcmd.moveFocus AutoTcmd.edit
  cases f with
  | power => rfl
  | repeats => rfl
  | interval => rfl
  | allowTx => rfl

theorem AutoTcmd.SameRun.ite {p : Prop} [Decidable p] {a b c : AutoTcmd} (hb : b.SameRun a) (hc : c.SameRun a) :
    (if p then b else c).SameRun a := by
  by_cases hp : p
  · rw [if_pos hp]
    exact hb
  · rw [if_neg hp]
    exact hc

theorem setupKey_sameRun (a : AutoTcmd) (key : ℤ) : (setupKey a key).SameRun a := by
  have hinsert (ch : UInt8) :
      (if a.focus.charOk ch = true then a.edit fun t => (t.uiTfInsert a.focus.cap ch).1 else a).SameRun a :=
    .ite (.edit a _) (.refl a)
  have htyped := AutoTcmd.SameRun.ite (p := 32 ≤ key ∧ key < 127) (hinsert (UInt8.ofNat key.toNat)) (.refl a)
  have htoggle : { a with allowTx := !a.allowTx }.SameRun a := rfl
  exact .ite (.moveFocus a _) (.ite (.moveFocus a _) (.ite (.edit a _) (.ite (.edit a _) (.ite (.edit a _)
    (.ite (.edit a _) (.ite (.edit a _) (.ite (.edit a _) (.ite (.edit a _) (.ite (.edit a _)
    (.ite htoggle htyped))))))))))

/-- The states in which Enter and Esc mean the setup form. -/
def State.Form (st : State) : Prop := st ≠ .running ∧ st ≠ .pausePrompt ∧ st ≠ .resumePrompt

/-- What a key does. -/
inductive KeyStep (ses : Session) (now key : ℤ) (s : Operator) : Operator → Prop
  | same : KeyStep ses now key s s
  | edited (hform : s.auto.state.Form) (a : AutoTcmd) (ha : a.SameRun s.auto) :
      KeyStep ses now key s { s with auto := a }
  | started (hform : s.auto.state.Form) (hcmds : s.auto.nCommands ≠ 0)
      (hgate : tcmdLintGateDecision s.auto.lintErrors s.auto.lintDangers ses.ignoreTcErrors
        ses.ignoreDangerousTcmds = .proceed)
      (repeats : ℕ) (hrepeats : 1 ≤ repeats) (interval : ℚ) :
      KeyStep ses now key s { s with
        auto := { s.auto with
          repeatsTotal := repeats, intervalSVal := interval, cmdIdx := 0, repeatIdx := 0, sendsTotal := 0
          nextSendNs := now, state := .running }
        run := ⟨s.auto.cmds, repeats, []⟩ }
  | interrupted (hstate : s.auto.state = .running) : KeyStep ses now key s (s.setState .pausePrompt)
  | continued (hstate : s.auto.state = .pausePrompt) : KeyStep ses now key s (s.setState .running)
  | stopped (hstate : s.auto.state = .running ∨ s.auto.state = .pausePrompt) :
      KeyStep ses now key s (s.setState .stopped)
  | parked (hstate : s.auto.state = .pausePrompt ∨ s.auto.state = .resumePrompt) :
      KeyStep ses now key s { s.setState .paused with active := false }
  | resumed (hstate : s.auto.state = .resumePrompt) (hkey : key = keyOf 'r' ∨ key = keyOf 'R') :
      KeyStep ses now key s (autoTcmdResume now s)
  | restarted (hstate : s.auto.state = .resumePrompt) (hkey : key = keyOf 's' ∨ key = keyOf 'S') :
      KeyStep ses now key s (autoTcmdRestart now s)
  | closed (hform : s.auto.state.Form) : KeyStep ses now key s (autoTcmdClose s)

variable {ses : Session} {now key : ℤ} {s : Operator}

theorem keyStep_start (hform : s.auto.state.Form) : KeyStep ses now key s (autoTcmdStart ses now s) := by
  unfold autoTcmdStart
  dsimp only
  split_ifs with hcmds hgate hallow hpower hrepeats hinterval
  · exact .same
  · exact .same
  · exact .same
  · exact .same
  · exact .same
  · exact .same
  · exact .started hform hcmds (not_not.mp hgate) _ (by omega) _
  · exact .started hform hcmds (not_not.mp hgate) _ (by omega) _

/-- The state after a key whose handler says whether the modal stays open. -/
def settle (p : Operator × Bool) : Operator := if p.2 then p.1 else autoTcmdClose p.1

theorem keyStep_bareEsc : KeyStep ses now key s (settle (bareEsc s)) := by
  unfold bareEsc
  cases hstate : s.auto.state with
  | running => exact .interrupted hstate
  | pausePrompt => exact .continued hstate
  | resumePrompt => exact .parked (.inr hstate)
  | setup => exact .closed (by simp [State.Form, hstate])
  | stopped => exact .closed (by simp [State.Form, hstate])
  | done => exact .closed (by simp [State.Form, hstate])
  | passOver => exact .closed (by simp [State.Form, hstate])
  | paused => exact .closed (by simp [State.Form, hstate])

theorem keyStep_form (hform : s.auto.state.Form) :
    KeyStep ses now key s (settle (if key = keyOf '\n' ∨ key = keyOf '\r' ∨ key = keyEnter
      then (autoTcmdStart ses now s, true) else ({ s with auto := setupKey s.auto key }, true))) := by
  split_ifs
  · exact keyStep_start hform
  · exact .edited hform _ (setupKey_sameRun _ _)

theorem keyStep_stateKey : KeyStep ses now key s (settle (stateKey ses now s key)) := by
  unfold stateKey
  cases hstate : s.auto.state with
  | pausePrompt =>
      dsimp only
      split_ifs
      · exact .parked (.inl hstate)
      · exact .stopped (.inr hstate)
      · exact .same
  | resumePrompt =>
      dsimp only
      split_ifs with hr hs
      · exact .resumed hstate hr
      · exact .restarted hstate hs
      · exact .same
  | running =>
      dsimp only
      split_ifs
      · exact .stopped (.inl hstate)
      · exact .same
  | setup => exact keyStep_form (by simp [State.Form, hstate])
  | stopped => exact keyStep_form (by simp [State.Form, hstate])
  | done => exact keyStep_form (by simp [State.Form, hstate])
  | passOver => exact keyStep_form (by simp [State.Form, hstate])
  | paused => exact keyStep_form (by simp [State.Form, hstate])

/-- The codes an escape sequence is translated to are no characters. -/
theorem le_of_txDrainCsi {waiting : List ℤ} {k : ℤ} (h : txDrainCsi waiting = some k) : 258 ≤ k := by
  have hite {p : Prop} [Decidable p] {x y : Option ℤ} (hx : ∀ n ∈ x, 258 ≤ n) (hy : ∀ n ∈ y, 258 ≤ n) :
      ∀ n ∈ (if p then x else y), 258 ≤ n := by
    by_cases hp : p
    · rw [if_pos hp]
      exact hx
    · rw [if_neg hp]
      exact hy
  have hsome {n : ℤ} (hn : 258 ≤ n) : ∀ m ∈ some n, 258 ≤ m := fun m hm => Option.mem_some_iff.mp hm ▸ hn
  have hnone : ∀ n ∈ (none : Option ℤ), 258 ≤ n := fun n hn => absurd hn (Option.not_mem_none n)
  have hall : ∀ n ∈ txDrainCsi waiting, 258 ≤ n := by
    unfold txDrainCsi
    split
    · refine hite hnone (hite (hsome ?_) (hite (hsome ?_) (hite (hsome ?_) (hite (hsome ?_) (hite (hsome ?_)
        (hite (hsome ?_) (hite hnone (hite (hsome ?_) (hite (hsome ?_) (hite (hsome ?_) hnone))))))))))
      all_goals decide
    · exact hnone
  exact hall k h

/-- A key changes nothing while the modal is closed, and does one of these while it is open. -/
theorem keyStep_of (ses : Session) (now : ℤ) (s : Operator) (key : ℤ) (waiting : List ℤ) :
    inputHandleKeys ses now s key waiting = s ∨
      s.active = true ∧ s.composeActive = false ∧ ∃ k, (k = key ∨ 258 ≤ k) ∧
        KeyStep ses now k s (inputHandleKeys ses now s key waiting) := by
  unfold inputHandleKeys
  by_cases hcompose : s.composeActive = true
  · exact .inl (if_pos hcompose)
  by_cases hactive : s.active = false
  · rw [if_neg hcompose]
    exact .inl (if_pos hactive)
  rw [if_neg hcompose, if_neg hactive]
  refine .inr ⟨Bool.eq_true_of_not_eq_false hactive, Bool.eq_false_of_not_eq_true hcompose, ?_⟩
  change ∃ k, (k = key ∨ 258 ≤ k) ∧ KeyStep ses now k s (settle (autoTcmdHandleKey ses now s key waiting))
  unfold autoTcmdHandleKey
  rw [if_neg hactive]
  split_ifs
  · exact ⟨key, .inl rfl, .same⟩
  · cases hcsi : txDrainCsi waiting with
    | none => exact ⟨key, .inl rfl, keyStep_bareEsc⟩
    | some k => exact ⟨k, .inr (le_of_txDrainCsi hcsi), keyStep_stateKey⟩
  · exact ⟨key, .inl rfl, keyStep_stateKey⟩

/-! ## Opening -/

/-- What an opening does. -/
inductive OpenStep (ses : Session) (env : OpenEnv) (s : Operator) : Operator → Prop
  | same : OpenStep ses env s s
  | prompted (hactive : s.active = false) (hparked : s.auto.state = .paused) (hcmds : s.auto.commands.isSome)
      (hwindow : env.window = true) : OpenStep ses env s { s.setState .resumePrompt with active := true }
  | lost (hasked : env.ipc = true ∧ s.composeActive = false) (hactive : s.active = false)
      (hparked : s.auto.state = .paused) (hcmds : s.auto.commands.isSome) (hwindow : env.window = false) :
      OpenStep ses env s (s.setState .resumePrompt)
  | unloaded (hactive : s.active = false) (hparked : ¬(s.auto.state = .paused ∧ s.auto.commands.isSome)) :
      OpenStep ses env s { s with auto := s.auto.freeCommands }
  | reloaded (hactive : s.active = false) (hparked : ¬(s.auto.state = .paused ∧ s.auto.commands.isSome))
      (content : List UInt8) (hfile : env.file = some content) :
      OpenStep ses env s { s with auto := freshSetup (loaded content) (reloadCounts env), active := true }
  | windowless (hactive : s.active = false) (hparked : ¬(s.auto.state = .paused ∧ s.auto.commands.isSome))
      (content : List UInt8) :
      OpenStep ses env s { s with auto := (freshSetup (loaded content) (reloadCounts env)).freeCommands }

theorem openStep_of (ses : Session) (env : OpenEnv) (s : Operator) : OpenStep ses env s (autoTcmdOpen ses env s) := by
  unfold autoTcmdOpen
  by_cases hipc : env.ipc = false
  · rw [if_pos hipc]
    exact .same
  by_cases hcompose : s.composeActive = true
  · rw [if_neg hipc, if_pos hcompose]
    exact .same
  by_cases hactive : s.active = true
  · rw [if_neg hipc, if_neg hcompose, if_pos hactive]
    exact .same
  have hclosed := Bool.eq_false_of_not_eq_true hactive
  rw [if_neg hipc, if_neg hcompose, if_neg hactive]
  by_cases hparked : s.auto.state = .paused ∧ s.auto.commands.isSome
  · rw [if_pos hparked]
    split_ifs with hwindow
    · exact .lost ⟨Bool.eq_true_of_not_eq_false hipc, Bool.eq_false_of_not_eq_true hcompose⟩ hclosed hparked.1
        hparked.2 hwindow
    · exact .prompted hclosed hparked.1 hparked.2 (Bool.eq_true_of_not_eq_false hwindow)
  · rw [if_neg hparked]
    unfold autoTcmdReload
    by_cases hpath : ses.filePath = []
    · rw [if_pos hpath]
      exact .same
    rw [if_neg hpath, if_neg hpath]
    cases hfile : env.file with
    | none => exact .unloaded hclosed hparked
    | some content =>
        dsimp only
        split_ifs
        · exact .windowless hclosed hparked content
        · exact .reloaded hclosed hparked content hfile

/-! ## Ticks -/

/-- The command is keyed: its expansion goes well and fits into a frame. -/
def Keyed (e : Expansion) : Prop :=
  (e.status = .ok ∨ e.status = .notPseudo) ∧ e.out.length ≤ TxBurst.tcmdRfMaxLen

instance (e : Expansion) : Decidable (Keyed e) := by
  unfold Keyed
  infer_instance

/-- Whether a command is keyed does not hang on the clock. -/
theorem keyed_expansion_iff (ses : Session) (t t' : Int64) (raw : List UInt8) :
    Keyed (expansion ses t raw) ↔ Keyed (expansion ses t' raw) := by
  have hcap : 71 < 512 := by decide
  have hmax : 71 ≤ TxBurst.tcmdRfMaxLen := by decide
  obtain ⟨hst, hlen⟩ := expand_eq raw ⟨t, ses.passTssentMs⟩ ⟨t', ses.passTssentMs⟩ hcap 160 hmax
  unfold Keyed expansion
  rw [hst, hlen]

/-- The time for the next send has come and the slot is free. -/
structure Due (env : TickEnv) (s : Operator) : Prop where
  active : s.active = true
  running : s.auto.state = .running
  more : s.auto.cmdIdx < s.auto.nCommands
  time : s.auto.nextSendNs ≤ env.nowNs
  free : s.handoff.pending = false

/-- What a tick does. -/
inductive TickStep (ses : Session) (env : TickEnv) (s : Operator) : Operator → Prop
  | same : TickStep ses env s s
  | passOver (hactive : s.active = true) (hstate : s.auto.state = .running) : TickStep ses env s (s.setState .passOver)
  | done (hactive : s.active = true) (hstate : s.auto.state = .running) (hidx : s.auto.nCommands ≤ s.auto.cmdIdx) :
      TickStep ses env s (s.setState .done)
  | stopped (hactive : s.active = true) (hstate : s.auto.state = .running) : TickStep ses env s (s.setState .stopped)
  | skipped (hdue : Due env s) (hkeyed : ¬Keyed (expansion ses env.utcMs (s.auto.cmds.getD s.auto.cmdIdx []))) :
      TickStep ses env s { s with auto := s.auto.skip env.nowNs }
  | sent (hdue : Due env s) (req : TxRequestSlot)
      (hkeyed : Keyed (expansion ses env.utcMs (s.auto.cmds.getD s.auto.cmdIdx [])))
      (hpayload : req.payload = (expansion ses env.utcMs (s.auto.cmds.getD s.auto.cmdIdx [])).out) (next : ℤ) :
      TickStep ses env s { s with
        handoff := s.handoff.stage req
        auto := s.auto.sent next
        run := { s.run with sends := s.run.sends ++ [⟨env.utcMs, req.payload⟩] } }

theorem tickStep_of (ses : Session) (env : TickEnv) (s : Operator) : TickStep ses env s (autoTcmdTick ses env s) := by
  unfold autoTcmdTick
  dsimp only
  split_ifs with hactive hstate hpass hidx hsdr htime hpending hst hlen
  · exact .same
  · exact .same
  · exact .passOver (Bool.eq_true_of_not_eq_false hactive) (not_not.mp hstate)
  · exact .done (Bool.eq_true_of_not_eq_false hactive) (not_not.mp hstate) hidx
  · exact .stopped (Bool.eq_true_of_not_eq_false hactive) (not_not.mp hstate)
  · exact .same
  · exact .same
  all_goals
    have hdue : Due env s := ⟨Bool.eq_true_of_not_eq_false hactive, not_not.mp hstate, by omega, by omega,
      Bool.eq_false_of_not_eq_true hpending⟩
  · exact .skipped hdue fun h => h.1.elim hst.1 hst.2
  · exact .skipped hdue fun h => absurd h.2 (by omega)
  · have hkeyed : Keyed (expansion ses env.utcMs (s.auto.cmds.getD s.auto.cmdIdx [])) := by
      refine ⟨?_, by omega⟩
      by_contra hne
      push Not at hne
      exact hst hne
    refine .sent hdue _ hkeyed ?_ _
    -- the buffer of the request is larger than any frame
    exact List.take_of_length_le (hkeyed.2.trans (by decide))

/-! ## Which states go with an open modal -/

/-- A run is running under an open modal and parked under a closed one; an open modal has its commands. -/
structure Placed (s : Operator) : Prop where
  running : s.auto.state = .running ∨ s.auto.state = .pausePrompt → s.active = true
  paused : s.auto.state = .paused → s.active = false ∧ s.auto.commands.isSome
  loaded : s.active = true → s.auto.commands.isSome

/-- While the modal stays open every state will do but the parked one. -/
theorem Placed.stay (h : Placed s) (hactive : s.active = true) {t : Operator} (hopen : t.active = s.active)
    (hcmds : t.auto.commands = s.auto.commands) (hstate : t.auto.state ≠ .paused) : Placed t :=
  ⟨fun _ => hopen.trans hactive, fun hp => absurd hp hstate, fun _ => hcmds ▸ h.loaded hactive⟩

theorem placed_keyStep (h : Placed s) (hactive : s.active = true) {t : Operator} (hstep : KeyStep ses now key s t) :
    Placed t := by
  have hnotPaused : s.auto.state ≠ .paused := fun hp => by simp [(h.paused hp).1] at hactive
  cases hstep with
  | same => exact h
  | edited hform a ha => exact h.stay hactive rfl ha.commands_eq (ha.state_eq ▸ hnotPaused)
  | started hform hcmds hgate repeats hrepeats interval => exact h.stay hactive rfl rfl nofun
  | interrupted hstate => exact h.stay hactive rfl rfl nofun
  | continued hstate => exact h.stay hactive rfl rfl nofun
  | stopped hstate => exact h.stay hactive rfl rfl nofun
  | parked hstate => exact ⟨nofun, fun _ => ⟨rfl, h.loaded hactive⟩, nofun⟩
  | resumed hstate hkey => exact h.stay hactive rfl rfl nofun
  | restarted hstate hkey => exact h.stay hactive rfl rfl nofun
  | closed hform =>
      unfold autoTcmdClose
      rw [if_pos hnotPaused]
      exact ⟨fun hr => hr.elim (fun h => absurd h hform.1) (fun h => absurd h hform.2.1),
        fun hp => absurd hp hnotPaused, nofun⟩

theorem placed_openStep (h : Placed s) {env : OpenEnv} {t : Operator} (hstep : OpenStep ses env s t) : Placed t := by
  have hidle : s.active = false → ¬(s.auto.state = .running ∨ s.auto.state = .pausePrompt) := fun hclosed hr => by
    exact absurd (h.running hr) (by simp [hclosed])
  cases hstep with
  | same => exact h
  | prompted hactive hparked hcmds hwindow => exact ⟨fun _ => rfl, nofun, fun _ => hcmds⟩
  | lost hasked hactive hparked hcmds hwindow =>
      exact ⟨nofun, nofun, fun hopen => absurd hopen (by simp [Operator.setState, hactive])⟩
  | unloaded hactive hparked =>
      refine ⟨fun hr => absurd hr (hidle hactive), fun hp => ?_, fun hopen => absurd hopen (by simp [hactive])⟩
      exact absurd ⟨hp, (h.paused hp).2⟩ hparked
  | reloaded hactive hparked content hfile => exact ⟨nofun, nofun, fun _ => rfl⟩
  | windowless hactive hparked content => exact ⟨nofun, nofun, fun hopen => absurd hopen (by simp [hactive])⟩

theorem placed_tickStep (h : Placed s) {env : TickEnv} {t : Operator} (hstep : TickStep ses env s t) : Placed t := by
  cases hstep with
  | same => exact h
  | passOver hactive hstate => exact h.stay hactive rfl rfl nofun
  | done hactive hstate hidx => exact h.stay hactive rfl rfl nofun
  | stopped hactive hstate => exact h.stay hactive rfl rfl nofun
  | skipped hdue hkeyed =>
      exact h.stay hdue.active rfl rfl fun hp => absurd (hdue.running.symm.trans hp) nofun
  | sent hdue req hkeyed hpayload next =>
      exact h.stay hdue.active rfl rfl fun hp => absurd (hdue.running.symm.trans hp) nofun

section Runs
variable (sha1 : List UInt8 → Bytes 20) (cfg : Config)

theorem step_key_of_same {waiting : List ℤ} (h : inputHandleKeys ses now s key waiting = s) :
    step sha1 cfg ses s (.key now key waiting) = s := h

theorem placed_step (h : Placed s) (a : Action) : Placed (step sha1 cfg ses s a) := by
  cases a with
  | opened env => exact placed_openStep h (openStep_of ses env s)
  | key now key waiting =>
      rcases keyStep_of ses now s key waiting with heq | ⟨hactive, -, k, -, hstep⟩
      · rw [step_key_of_same sha1 cfg heq]
        exact h
      · exact placed_keyStep h hactive hstep
  | tick env => exact placed_tickStep h (tickStep_of ses env s)
  | composeOpen =>
      unfold step
      split_ifs
      · exact h
      · exact ⟨h.running, h.paused, h.loaded⟩
  | composeClose => exact ⟨h.running, h.paused, h.loaded⟩
  | handoff a => exact ⟨h.running, h.paused, h.loaded⟩

theorem placed_run (ses : Session) (actions : List Action) : Placed (run sha1 cfg ses actions) := by
  unfold run
  induction actions using List.reverseRecOn with
  | nil => exact ⟨nofun, nofun, nofun⟩
  | append_singleton actions a ih =>
      rw [List.foldl_append]
      exact placed_step sha1 cfg ih a

end Runs

end SimpleSatOps.AutoTcmdModal
