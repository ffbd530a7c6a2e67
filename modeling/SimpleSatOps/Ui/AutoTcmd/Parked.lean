import SimpleSatOps.Ui.AutoTcmd.FailClosed

/-!
# Parked runs

* `Parked` : a paused run waits under a closed modal, or behind the question whether to resume it;
* `parked_step` : it keeps waiting until it is answered, while there are windows;
* `parked_survives` : over whole runs;
* `not_survives` : an opening without a window loses it.
-/

namespace SimpleSatOps.AutoTcmdModal
open TxHandoff

/-- The run is parked: the modal is closed, or it asks whether to resume. -/
def Parked (s : Operator) : Prop :=
  s.auto.commands.isSome ∧
    (s.auto.state = .paused ∧ s.active = false ∨ s.auto.state = .resumePrompt ∧ s.active = true)

/-- The run parked in `s` is still there in `t`, and the next opening that finds a window asks whether to resume. -/
def Survives (ses : Session) (s t : Operator) : Prop :=
  SamePlace s t ∧ ∀ env : OpenEnv, env.ipc = true → t.composeActive = false → env.window = true →
    (autoTcmdOpen ses env t).auto.state = .resumePrompt ∧ (autoTcmdOpen ses env t).active = true ∧
      SamePlace s (autoTcmdOpen ses env t)

/-- The operator resumes, or starts over. -/
def Answers (s : Operator) : Action → Prop
  | .key _ key _ => s.active = true ∧ s.auto.state = .resumePrompt ∧
      (key = keyOf 'r' ∨ key = keyOf 'R' ∨ key = keyOf 's' ∨ key = keyOf 'S')
  | _ => False

/-- The modal is to open and there is no window. -/
def Windowless (s : Operator) : Action → Prop
  | .opened env => env.ipc = true ∧ s.composeActive = false ∧ s.active = false ∧ env.window = false
  | _ => False

variable {sha1 : List UInt8 → Bytes 20} {cfg : Config} {ses : Session} {s : Operator}

theorem SamePlace.trans {t u : Operator} (hst : SamePlace s t) (htu : SamePlace t u) : SamePlace s u :=
  ⟨htu.1.trans hst.1, htu.2.1.trans hst.2.1, htu.2.2.1.trans hst.2.2.1, htu.2.2.2.1.trans hst.2.2.2.1,
    htu.2.2.2.2.trans hst.2.2.2.2⟩

theorem Parked.not_running (h : Parked s) : s.auto.state ≠ .running := by
  rcases h.2 with ⟨hp, -⟩ | ⟨hp, -⟩ <;> simp [hp]

/-! ## One step -/

theorem parked_openStep (h : Parked s) {env : OpenEnv} (hwindow : ¬Windowless s (.opened env)) {t : Operator}
    (hstep : OpenStep ses env s t) : Parked t ∧ SamePlace s t := by
  have hclosed : s.active = false → s.auto.state = .paused ∧ s.auto.commands.isSome := fun hactive => by
    rcases h.2 with ⟨hp, -⟩ | ⟨-, hopen⟩
    · exact ⟨hp, h.1⟩
    · simp [hactive] at hopen
  cases hstep with
  | same => exact ⟨h, .of_auto rfl⟩
  | prompted hactive hparked hcmds hwin => exact ⟨⟨hcmds, .inr ⟨rfl, rfl⟩⟩, rfl, rfl, rfl, rfl, rfl⟩
  | lost hasked hactive hparked hcmds hno => exact absurd ⟨hasked.1, hasked.2, hactive, hno⟩ hwindow
  | unloaded hactive hparked => exact absurd (hclosed hactive) hparked
  | reloaded hactive hparked content hfile => exact absurd (hclosed hactive) hparked
  | windowless hactive hparked content => exact absurd (hclosed hactive) hparked

theorem parked_keyStep (h : Parked s) (hactive : s.active = true) {now key k : ℤ} (hkey : k = key ∨ 258 ≤ k)
    {waiting : List ℤ} (hans : ¬Answers s (.key now key waiting)) {t : Operator} (hstep : KeyStep ses now k s t) :
    Parked t ∧ SamePlace s t := by
  obtain ⟨hcmds, ⟨-, hclosed⟩ | ⟨hprompt, -⟩⟩ := h
  · simp [hactive] at hclosed
  -- a letter is no translated escape sequence
  have hletter : ∀ c : ℤ, c < 258 → k = c → key = c := fun c hc hk => by omega
  cases hstep with
  | same => exact ⟨⟨hcmds, .inr ⟨hprompt, hactive⟩⟩, .of_auto rfl⟩
  | edited hform a ha => exact absurd hprompt hform.2.2
  | started hform => exact absurd hprompt hform.2.2
  | interrupted hstate => exact absurd (hprompt.symm.trans hstate) nofun
  | continued hstate => exact absurd (hprompt.symm.trans hstate) nofun
  | stopped hstate =>
      rcases hstate with hstate | hstate
      · exact absurd (hprompt.symm.trans hstate) nofun
      · exact absurd (hprompt.symm.trans hstate) nofun
  | parked hstate => exact ⟨⟨hcmds, .inl ⟨rfl, rfl⟩⟩, rfl, rfl, rfl, rfl, rfl⟩
  | resumed hstate hk =>
      refine absurd ⟨hactive, hprompt, ?_⟩ hans
      exact hk.elim (fun h => .inl (hletter _ (by decide) h)) (fun h => .inr (.inl (hletter _ (by decide) h)))
  | restarted hstate hk =>
      refine absurd ⟨hactive, hprompt, .inr (.inr ?_)⟩ hans
      exact hk.imp (hletter _ (by decide)) (hletter _ (by decide))
  | closed hform => exact absurd hprompt hform.2.2

theorem tickStep_same (h : s.auto.state ≠ .running) {env : TickEnv} {t : Operator} (hstep : TickStep ses env s t) :
    t = s := by
  cases hstep with
  | same => rfl
  | passOver hactive hstate => exact absurd hstate h
  | done hactive hstate hidx => exact absurd hstate h
  | stopped hactive hstate => exact absurd hstate h
  | skipped hdue hkeyed => exact absurd hdue.running h
  | sent hdue req hkeyed hpayload next => exact absurd hdue.running h

/-- A parked run stays parked until it is answered. -/
theorem parked_step (h : Parked s) {a : Action} (hwindow : ¬Windowless s a) (hans : ¬Answers s a) :
    Parked (step sha1 cfg ses s a) ∧ SamePlace s (step sha1 cfg ses s a) := by
  cases a with
  | opened env => exact parked_openStep h hwindow (openStep_of ses env s)
  | key now key waiting =>
      rcases keyStep_of ses now s key waiting with heq | ⟨hactive, -, k, hk, hstep⟩
      · rw [step_key_of_same sha1 cfg heq]
        exact ⟨h, .of_auto rfl⟩
      · exact parked_keyStep h hactive hk hans hstep
  | tick env =>
      have hsame : step sha1 cfg ses s (.tick env) = s := tickStep_same h.not_running (tickStep_of ses env s)
      rw [hsame]
      exact ⟨h, .of_auto rfl⟩
  | composeOpen =>
      unfold step
      split_ifs
      · exact ⟨h, .of_auto rfl⟩
      · exact ⟨h, rfl, rfl, rfl, rfl, rfl⟩
  | composeClose => exact ⟨h, rfl, rfl, rfl, rfl, rfl⟩
  | handoff a => exact ⟨h, rfl, rfl, rfl, rfl, rfl⟩

/-! ## Whole runs -/

/-- `p` holds of every step from `s` on. -/
def Throughout (sha1 : List UInt8 → Bytes 20) (cfg : Config) (ses : Session) (p : Operator → Action → Prop)
    (s : Operator) : List Action → Prop
  | [] => True
  | a :: actions => p s a ∧ Throughout sha1 cfg ses p (step sha1 cfg ses s a) actions

theorem parked_foldl (h : Parked s) {actions : List Action}
    (hwindows : Throughout sha1 cfg ses (fun s a => ¬Windowless s a) s actions)
    (hun : Throughout sha1 cfg ses (fun s a => ¬Answers s a) s actions) :
    Parked (actions.foldl (step sha1 cfg ses) s) ∧ SamePlace s (actions.foldl (step sha1 cfg ses) s) := by
  induction actions generalizing s with
  | nil => exact ⟨h, .of_auto rfl⟩
  | cons a actions ih =>
      obtain ⟨hwindow, hwindows⟩ := hwindows
      obtain ⟨hans, hun⟩ := hun
      obtain ⟨hparked, hsame⟩ : Parked (step sha1 cfg ses s a) ∧ SamePlace s (step sha1 cfg ses s a) :=
        parked_step h hwindow hans
      obtain ⟨hparked', hsame'⟩ := ih hparked hwindows hun
      exact ⟨hparked', hsame.trans hsame'⟩

/-- An opening that finds a window asks the question. -/
theorem Parked.opened (h : Parked s) (ses : Session) {env : OpenEnv} (hipc : env.ipc = true)
    (hcompose : s.composeActive = false) (hwindow : env.window = true) :
    (autoTcmdOpen ses env s).auto.state = .resumePrompt ∧ (autoTcmdOpen ses env s).active = true := by
  obtain ⟨hcmds, ⟨hpaused, hclosed⟩ | ⟨hprompt, hopen⟩⟩ := h
  · simp [autoTcmdOpen, hipc, hcompose, hclosed, hpaused, hcmds, hwindow, Operator.setState]
  · simp [autoTcmdOpen, hipc, hcompose, hopen, hprompt]

/-- **A parked run survives as long as there are windows**, until the operator resumes it or starts over. -/
theorem parked_survives (sha1 : List UInt8 → Bytes 20) (cfg : Config) (ses : Session) (before after : List Action)
    (hpaused : (run sha1 cfg ses before).auto.state = .paused)
    (hwindows : Throughout sha1 cfg ses (fun s a => ¬Windowless s a) (run sha1 cfg ses before) after)
    (hun : Throughout sha1 cfg ses (fun s a => ¬Answers s a) (run sha1 cfg ses before) after) :
    Survives ses (run sha1 cfg ses before) (run sha1 cfg ses (before ++ after)) := by
  have hplaced := (placed_run sha1 cfg ses before).paused hpaused
  have hall := parked_foldl ⟨hplaced.2, .inl ⟨hpaused, hplaced.1⟩⟩ hwindows hun
  have hrun : run sha1 cfg ses (before ++ after) = after.foldl (step sha1 cfg ses) (run sha1 cfg ses before) := by
    unfold run
    rw [List.foldl_append]
  rw [hrun]
  refine ⟨hall.2, fun env hipc hcompose hwindow => ?_⟩
  obtain ⟨hstate, hactive⟩ := hall.1.opened ses hipc hcompose hwindow
  have hok : ¬Windowless (after.foldl (step sha1 cfg ses) (run sha1 cfg ses before)) (.opened env) := fun h =>
    absurd hwindow (by simp [h.2.2.2])
  exact ⟨hstate, hactive, hall.2.trans (parked_openStep hall.1 hok (openStep_of ses env _)).2⟩

/-- A run that is paused behind its first send. -/
def pausedRun : List Action :=
  startRun (steadyFile (text "CTS1+hello_world()!\n")) ++
    [.tick ⟨0, 0, 0, 0⟩, .key 0 27 [], .key 0 (keyOf 'p') []]

theorem parked_survives_reopened :
    Survives benchSession (run zeroHash benchConfig benchSession pausedRun)
      (run zeroHash benchConfig benchSession (pausedRun ++ [.opened (steadyFile []), .key 0 27 []])) := by
  refine parked_survives zeroHash benchConfig benchSession pausedRun _ (by decide +kernel) ?_ ?_
  · exact ⟨fun h => absurd h.2.2.2 (by decide), id, trivial⟩
  · exact ⟨id, fun h => absurd h.2.2 (by decide), trivial⟩

/-- Once there is no window the question is lost, and the next opening loads the file again. -/
theorem not_survives :
    let s := run zeroHash benchConfig benchSession pausedRun
    let noWindow := { steadyFile (text "CTS1+hello_world()!\n") with window := false }
    let reopened := [.opened noWindow, .opened (steadyFile (text "CTS1+hello_world()!\n"))]
    s.auto.state = .paused ∧ Throughout zeroHash benchConfig benchSession (fun s a => ¬Answers s a) s reopened ∧
      ¬Survives benchSession s (run zeroHash benchConfig benchSession (pausedRun ++ reopened)) := by
  refine ⟨by decide +kernel, ⟨id, id, trivial⟩, fun h => ?_⟩
  exact absurd h.1.2.2.2.2 (by decide +kernel)

end SimpleSatOps.AutoTcmdModal
