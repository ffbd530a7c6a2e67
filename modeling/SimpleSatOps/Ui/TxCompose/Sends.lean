import SimpleSatOps.Ui.AutoTcmd.Steps
import SimpleSatOps.Ui.CmdLine.Run
import SimpleSatOps.Ui.TxCompose

/-!
# What the compose modal sends

* `Holds` : a text field with its cursor on the text, shorter than its buffer, of characters that are accepted;
* `FormOk`, `FormOk.press` : the fields of the form, and the keys;
* `Commit.Sound` : what is true of a request that was staged;
* `Change`, `change_step` : the ways an action changes the state of both modals, and that there are no others;
* `compose_sends` : requests are staged by a valid form and by nothing else;
* `compose_drafts` : when the form has rested, viewers have been sent what it shows.
-/

namespace SimpleSatOps.TxComposeModal
open Ax100 Csp TxHandoff SsoPseudo AutoTcmdModal
open TxBurst (tcmdRfMaxLen burstOpts)

/-! ## Fields -/

/-- The text is shorter than the buffer and of characters that are accepted; the cursor is on it. -/
structure Holds (cap : ℕ) (ok : UInt8 → Bool) (t : TextField) : Prop where
  fits : t.buf.length < cap
  accepted : ∀ ch ∈ t.buf, ok ch = true
  cursor : t.cursor ≤ t.buf.length

namespace Holds
variable {cap : ℕ} {ok : UInt8 → Bool} {t : TextField}

theorem ofText {s : List UInt8} (hfits : s.length < cap) (hok : ∀ ch ∈ s, ok ch = true) : Holds cap ok (.ofText s) :=
  ⟨hfits, hok, le_rfl⟩

theorem insert (h : Holds cap ok t) {ch : UInt8} (hch : ok ch = true) : Holds cap ok (t.uiTfInsert cap ch).1 := by
  unfold TextField.uiTfInsert
  split_ifs with hfull
  · exact h
  · have hlen : (t.buf.take (min t.cursor t.buf.length) ++ ch :: t.buf.drop (min t.cursor t.buf.length)).length =
        t.buf.length + 1 := by
      rw [List.length_append, List.length_cons, List.length_take, List.length_drop]
      omega
    refine ⟨?_, fun x hx => ?_, ?_⟩
    · show (_ ++ _ :: _).length < cap
      omega
    · rcases List.mem_append.mp hx with hx | hx
      · exact h.accepted x (List.mem_of_mem_take hx)
      · rcases List.mem_cons.mp hx with rfl | hx
        · exact hch
        · exact h.accepted x (List.mem_of_mem_drop hx)
    · show min t.cursor t.buf.length + 1 ≤ (_ ++ _ :: _).length
      omega

/-- A part of the text. -/
theorem sub (h : Holds cap ok t) {u : TextField} (hsub : u.buf.Sublist t.buf) (hcursor : u.cursor ≤ u.buf.length) :
    Holds cap ok u :=
  ⟨hsub.length_le.trans_lt h.fits, fun ch hch => h.accepted ch (hsub.subset hch), hcursor⟩

theorem backspace (h : Holds cap ok t) : Holds cap ok t.uiTfBackspace.1 := by
  have hcursor := h.cursor
  unfold TextField.uiTfBackspace
  split_ifs with hnone
  · exact h
  · rw [not_or] at hnone
    refine h.sub (List.eraseIdx_sublist _ _) ?_
    show t.cursor - 1 ≤ (t.buf.eraseIdx (t.cursor - 1)).length
    rw [List.length_eraseIdx_of_lt (by omega)]
    omega

theorem delete (h : Holds cap ok t) : Holds cap ok t.uiTfDelete.1 := by
  unfold TextField.uiTfDelete
  split_ifs with hend
  · exact h
  · refine h.sub (List.eraseIdx_sublist _ _) ?_
    show t.cursor ≤ (t.buf.eraseIdx t.cursor).length
    rw [List.length_eraseIdx_of_lt (by omega)]
    omega

theorem killToEnd (h : Holds cap ok t) : Holds cap ok t.uiTfKillToEnd.1 := by
  unfold TextField.uiTfKillToEnd
  split_ifs with hend
  · exact h
  · refine h.sub (List.take_sublist _ _) ?_
    show t.cursor ≤ (t.buf.take t.cursor).length
    rw [List.length_take]
    omega

theorem killWordBack (h : Holds cap ok t) : Holds cap ok t.uiTfKillWordBack.1 := by
  have hcursor := h.cursor
  unfold TextField.uiTfKillWordBack
  dsimp only
  have hpre : ((t.buf.take t.cursor).rdropWhile (· == byte ' ')).rdropWhile (· != byte ' ') <+: t.buf :=
    ((List.rdropWhile_prefix _ _).trans (List.rdropWhile_prefix _ _)).trans (List.take_prefix _ _)
  have hle : (((t.buf.take t.cursor).rdropWhile (· == byte ' ')).rdropWhile (· != byte ' ')).length ≤ t.cursor :=
    (((List.rdropWhile_prefix _ _).trans (List.rdropWhile_prefix _ _)).length_le.trans
      (List.length_take_le _ _))
  generalize (((t.buf.take t.cursor).rdropWhile (· == byte ' ')).rdropWhile (· != byte ' ')).length = cur at hle
  split_ifs with hnone
  · exact h
  · refine h.sub ?_ ?_
    · have hsub : (t.buf.take cur ++ t.buf.drop t.cursor).Sublist (t.buf.take t.cursor ++ t.buf.drop t.cursor) :=
        (List.take_sublist_take_left hle).append (List.Sublist.refl _)
      rwa [List.take_append_drop] at hsub
    · show cur ≤ (t.buf.take cur ++ t.buf.drop t.cursor).length
      rw [List.length_append, List.length_take]
      omega

theorem move (h : Holds cap ok t) {n : ℕ} (hn : n ≤ t.buf.length) : Holds cap ok { t with cursor := n } :=
  ⟨h.fits, h.accepted, hn⟩

theorem left (h : Holds cap ok t) : Holds cap ok t.uiTfLeft := h.move ((Nat.sub_le _ _).trans h.cursor)

theorem right (h : Holds cap ok t) : Holds cap ok t.uiTfRight := by
  unfold TextField.uiTfRight
  split_ifs with hlt
  · exact h.move hlt
  · exact h

end Holds

/-! ## The form -/

/-- The next key of the table, or the rest of it. -/
theorem pressed_orElse {P : TxCompose → Prop} {p : Prop} [Decidable p] {c : TxCompose} {rest : Option TxCompose}
    (h : P c) (hrest : ∀ c' ∈ rest, P c') : ∀ c' ∈ (if p then some c else rest), P c' := by
  intro c' hc'
  split_ifs at hc'
  · exact Option.some.inj hc' ▸ h
  · exact hrest c' hc'

/-- A payload the form can hold. -/
structure Clean (s : List UInt8) : Prop where
  fits : s.length ≤ tcmdRfMaxLen
  accepted : ∀ ch ∈ s, TxField.payload.accepts ch = true

theorem Clean.nil : Clean [] := ⟨Nat.zero_le _, fun _ h => absurd h List.not_mem_nil⟩

theorem Clean.take {s : List UInt8} (h : Clean s) (n : ℕ) : Clean (s.take n) :=
  ⟨(List.length_take_le' n s).trans h.fits, fun ch hch => h.accepted ch (List.mem_of_mem_take hch)⟩

/-- The fields of the form, and the payload put aside while the history is shown. -/
structure FormOk (c : TxCompose) : Prop where
  payload : Holds (tcmdRfMaxLen + 1) TxField.payload.accepts c.payload
  power : Holds TxField.power.size TxField.power.accepts c.power
  saved : Clean c.historySavedEdit

namespace FormOk
variable {c : TxCompose}

theorem clean (h : FormOk c) : Clean c.payload.buf := ⟨Nat.le_of_lt_succ h.payload.fits, h.payload.accepted⟩

/-- What changes neither field. -/
theorem same (h : FormOk c) {c' : TxCompose} (hpayload : c'.payload = c.payload) (hpower : c'.power = c.power)
    (hsaved : c'.historySavedEdit = c.historySavedEdit) : FormOk c' :=
  ⟨hpayload ▸ h.payload, hpower ▸ h.power, hsaved ▸ h.saved⟩

theorem edit (h : FormOk c) {f : TextField → TextField × Bool}
    (hf : ∀ t, Holds c.focus.insertCap c.focus.accepts t → Holds c.focus.insertCap c.focus.accepts (f t).1) :
    FormOk (c.edit f) := by
  unfold TxCompose.edit
  split
  · next hfocus =>
      rw [hfocus] at hf
      split_ifs
      · exact ⟨hf _ h.payload, h.power, h.saved⟩
      · exact h
  · next hfocus =>
      rw [hfocus] at hf
      split_ifs
      · exact ⟨h.payload, hf _ h.power, h.saved⟩
      · exact h
  · exact h

theorem move (h : FormOk c) {f : TextField → TextField}
    (hf : ∀ t, Holds c.focus.insertCap c.focus.accepts t → Holds c.focus.insertCap c.focus.accepts (f t)) :
    FormOk (c.move f) := by
  unfold TxCompose.move
  split
  · next hfocus =>
      rw [hfocus] at hf
      exact ⟨hf _ h.payload, h.power, h.saved⟩
  · next hfocus =>
      rw [hfocus] at hf
      exact ⟨h.payload, hf _ h.power, h.saved⟩
  · exact h

theorem moveFocus (h : FormOk c) (f : TxField) : FormOk (c.moveFocus f) :=
  FormOk.move (c := { c with focus := f }) (h.same rfl rfl rfl) fun _ ht => ht.move (min_le_right _ _)

theorem insert (h : FormOk c) (ch : UInt8) : FormOk (c.insert ch) := by
  unfold TxCompose.insert
  split_ifs with hfull hok
  · exact h.same rfl rfl rfl
  · exact h.edit fun _ ht => ht.insert hok
  · exact h

theorem historyRecall (h : FormOk c) {history : List (List UInt8)} (hhistory : ∀ s ∈ history, Clean s) (older : Bool) :
    FormOk (c.historyRecall history older) := by
  unfold TxCompose.historyRecall
  split
  · exact h
  · next idx heq =>
      have hsaved : Clean (if c.historyIdx = none ∧ idx ≠ none then snprintf TxField.payload.size c.payload.buf
          else c.historySavedEdit) := by
        split_ifs
        · exact h.clean.take _
        · exact h.saved
      have hline : Clean (idx.elim (if c.historyIdx = none ∧ idx ≠ none then
          snprintf TxField.payload.size c.payload.buf else c.historySavedEdit) fun i => history.getD i []) := by
        cases idx with
        | none => exact hsaved
        | some i =>
            rw [Option.elim_some, List.getD_eq_getElem?_getD]
            cases hget : history[i]? with
            | none => exact .nil
            | some s => exact hhistory s (List.mem_of_getElem? hget)
      have hshown := (hline.take (TxField.payload.size - 1)).take tcmdRfMaxLen
      exact ⟨.ofText (Nat.lt_succ_of_le hshown.fits) hshown.accepted, h.power, hsaved⟩

/-- The keys keep the fields as they have to be. -/
theorem press (h : FormOk c) {history : List (List UInt8)} (hhistory : ∀ s ∈ history, Clean s) (key : ℤ) :
    ∀ c' ∈ c.press history key, FormOk c' := by
  unfold TxCompose.press
  refine pressed_orElse (h.moveFocus _) (pressed_orElse (h.moveFocus _) ?_)
  refine pressed_orElse (h.edit fun _ ht => ht.backspace) (pressed_orElse (h.edit fun _ ht => ht.delete) ?_)
  refine pressed_orElse (h.edit fun _ ht => ht.killToEnd) (pressed_orElse (h.edit fun _ ht => ht.killWordBack) ?_)
  refine pressed_orElse (h.move fun _ ht => ht.left) (pressed_orElse (h.move fun _ ht => ht.right) ?_)
  refine pressed_orElse (h.move fun _ ht => ht.move (Nat.zero_le _))
    (pressed_orElse (h.move fun _ ht => ht.move le_rfl) ?_)
  refine pressed_orElse (h.historyRecall hhistory true) (pressed_orElse (h.historyRecall hhistory false) ?_)
  refine pressed_orElse (h.same rfl rfl rfl) (pressed_orElse (h.insert _) ?_)
  exact fun _ hnone => nomatch hnone

end FormOk

/-! ## What is staged -/

/-- The requests of one source, in the order in which they were staged. -/
def stagedBy (source : List UInt8) (log : List TxEvent) : List TxRequestSlot :=
  log.filterMap fun
    | .staged req => if req.txSource = source then some req else none
    | _ => none

/-- What is true of a request that was staged from the form. -/
structure Commit.Sound (sha1 : List UInt8 → Bytes 20) (cfg : Config) (ses : Session) (c : Commit) : Prop where
  permitted : cfg.noTx = false ∧ cfg.rxSession ≠ some false ∧ c.form.allowTx = true
  payload : c.form.payload.buf ≠ [] ∧ Clean c.form.payload.buf
  power : 0 ≤ atof c.form.power.buf ∧ atof c.form.power.buf ≤ 359 / 4
  expanded : (expansion ses c.utcMs c.form.payload.buf).status = .ok ∨
    (expansion ses c.utcMs c.form.payload.buf).status = .notPseudo
  wire : c.request.payload = (expansion ses c.utcMs c.form.payload.buf).out ∧ c.request.payload ≠ [] ∧
    c.request.payload.length ≤ tcmdRfMaxLen
  header : c.request.cspHdr = telecommandHdr
  framed : ∀ key : List UInt8, key ≠ [] → ∃ f, burstFrame sha1 c.request key = some f ∧
    ∀ locs : List ℤ,
      let u := unframe sha1 (f.drop (burstOpts (some key)).prefill.toNat) (burstOpts (some key)) 4096 (some locs)
      u.ret = some (4 + c.request.payload.length) ∧ cspV1Decode u.outPacket = telecommandHdr ∧
        slice u.outPacket 4 c.request.payload.length = c.request.payload

section Staging
variable {sha1 : List UInt8 → Bytes 20} {cfg : Config} {ses : Session} {source : List UInt8}

theorem stagedBy_append (log log' : List TxEvent) :
    stagedBy source (log ++ log') = stagedBy source log ++ stagedBy source log' :=
  List.filterMap_append

/-- A payload of the form expands to a telecommand that can be framed. -/
theorem length_expansion_le {s : List UInt8} (hs : s.length ≤ tcmdRfMaxLen) (utcMs : Int64) :
    (expansion ses utcMs s).out.length ≤ tcmdRfMaxLen := by
  unfold expansion ssoPseudoExpand
  split_ifs
  · exact (List.length_take_le' _ _).trans hs
  · cases hparse : parse s with
    | error e => exact Nat.zero_le _
    | ok spec =>
        obtain ⟨-, hlen⟩ := expand_of_mem (mem_of_parse hparse) ⟨utcMs, ses.passTssentMs⟩ (show 71 < 512 by decide)
        exact hlen.trans (by decide)

/-- What a commit does. -/
theorem txComposeCommit_ok {utcMs : Int64} {c : TxCompose} {s h : Handoff}
    (hok : txComposeCommit cfg ses utcMs c s = .ok h) :
    cfg.noTx = false ∧ cfg.rxSession ≠ some false ∧
      ((expansion ses utcMs c.payload.buf).status = .ok ∨ (expansion ses utcMs c.payload.buf).status = .notPseudo) ∧
      (expansion ses utcMs c.payload.buf).out ≠ [] ∧
      ∃ origin summary,
        h = TxHandoff.txComposeCommit cfg s (expansion ses utcMs c.payload.buf).out origin summary ∧
          h = s.stage
            (telecommandRequest (expansion ses utcMs c.payload.buf).out origin (text "manual send") summary) := by
  unfold txComposeCommit at hok
  dsimp only at hok
  split_ifs at hok with hsdr htx hrx hpending hst hnil hpseudo
  all_goals
    obtain rfl := Except.ok.inj hok
    have hstatus : (expansion ses utcMs c.payload.buf).status = .ok ∨
        (expansion ses utcMs c.payload.buf).status = .notPseudo := by
      by_contra hne
      exact hst (not_or.mp hne)
    refine ⟨Bool.eq_false_of_not_eq_true htx, hrx, hstatus, hnil, _, _, rfl, ?_⟩
    unfold TxHandoff.txComposeCommit
    rw [if_neg htx, if_neg hrx, if_neg hpending, if_neg hnil]

theorem txComposeValidate_none {c : TxCompose} (hnone : txComposeValidate c = none) :
    c.payload.buf ≠ [] ∧ c.allowTx = true ∧ 0 ≤ atof c.power.buf ∧ atof c.power.buf ≤ 359 / 4 := by
  unfold txComposeValidate at hnone
  dsimp only at hnone
  split_ifs at hnone with hnil hlong hallow hpower
  rw [not_or, not_lt, not_lt] at hpower
  exact ⟨hnil, Bool.eq_true_of_not_eq_false hallow, hpower⟩

/-- A telecommand that is short enough is framed and read back. -/
theorem framed_telecommandRequest {wire : List UInt8} (hlen : wire.length ≤ tcmdRfMaxLen)
    (origin txSource summary : List UInt8) {key : List UInt8} (hkey : key ≠ []) :
    ∃ f, burstFrame sha1 (telecommandRequest wire origin txSource summary) key = some f ∧
      ∀ locs : List ℤ,
        let u := unframe sha1 (f.drop (burstOpts (some key)).prefill.toNat) (burstOpts (some key)) 4096 (some locs)
        u.ret = some (4 + (telecommandRequest wire origin txSource summary).payload.length) ∧
          cspV1Decode u.outPacket = telecommandHdr ∧
          slice u.outPacket 4 (telecommandRequest wire origin txSource summary).payload.length =
            (telecommandRequest wire origin txSource summary).payload := by
  have hmax : tcmdRfMaxLen = 215 := rfl
  have hpayload : (telecommandRequest wire origin txSource summary).payload = wire :=
    List.take_of_length_le (hlen.trans (by decide))
  have hrange : telecommandHdr.InRange := by decide
  unfold burstFrame
  rw [if_neg hkey, hpayload]
  show ∃ f, TxBurst.txBurstBuildFrame sha1 wire telecommandHdr (some key) 4200 = some f ∧ _
  obtain ⟨f, hf⟩ := Option.isSome_iff_exists.mp
    ((TxBurst.txBurstBuildFrame_isSome_iff sha1 hrange hkey wire 4200).mpr ⟨hlen, by omega⟩)
  exact ⟨f, hf, fun locs => TxBurst.txBurstBuildFrame_roundtrip sha1 hrange hf (by omega) locs⟩

/-- A request staged by a form that passes the checks. -/
theorem sound_of_commit {utcMs : Int64} {c : TxCompose} {s h : Handoff} (hform : FormOk c)
    (hvalid : txComposeValidate c = none) (hok : txComposeCommit cfg ses utcMs c s = .ok h) :
    Commit.Sound sha1 cfg ses ⟨c, utcMs, h.txRequest⟩ := by
  obtain ⟨hne, hallow, hpower⟩ := txComposeValidate_none hvalid
  obtain ⟨htx, hrx, hstatus, hout, origin, summary, -, rfl⟩ := txComposeCommit_ok hok
  have hlen : (expansion ses utcMs c.payload.buf).out.length ≤ tcmdRfMaxLen :=
    length_expansion_le hform.clean.fits utcMs
  have hpayload : (telecommandRequest (expansion ses utcMs c.payload.buf).out origin (text "manual send")
      summary).payload = (expansion ses utcMs c.payload.buf).out :=
    List.take_of_length_le (hlen.trans (by decide))
  exact ⟨⟨htx, hrx, hallow⟩, ⟨hne, hform.clean⟩, hpower, hstatus,
    ⟨hpayload, hpayload.trans_ne hout, (congrArg List.length hpayload).trans_le hlen⟩, rfl,
    fun key hkey => framed_telecommandRequest hlen origin _ summary hkey⟩

end Staging

/-! ## The hand-off -/

section HandOff
variable {sha1 : List UInt8 → Bytes 20} {cfg : Config} {ses : Session} {source : List UInt8} {s : Handoff}

/-- The result of a request is no request. -/
theorem stagedBy_finish (onAir : Bool) (summary reason : List UInt8) :
    stagedBy source (s.finish onAir summary reason).log = stagedBy source s.log := by
  cases onAir <;> exact (stagedBy_append _ _).trans (List.append_nil _)

theorem stagedBy_serviceRequest : stagedBy source (txBurstServiceRequest cfg s).log = stagedBy source s.log := by
  unfold txBurstServiceRequest
  by_cases hpending : s.pending = false
  · rw [if_pos hpending]
  by_cases hdry : cfg.txDryRun = true
  · rw [if_neg hpending, if_pos hdry]
    exact stagedBy_finish _ _ _
  by_cases hkey : cfg.hmacKey.length = 0
  · rw [if_neg hpending, if_neg hdry, if_pos hkey]
    exact stagedBy_finish _ _ _
  rw [if_neg hpending, if_neg hdry, if_neg hkey]
  match cfg.rxSession with
  | none => exact stagedBy_finish _ _ _
  | some false => exact stagedBy_finish _ _ _
  | some true =>
      dsimp only
      split_ifs with hinflight
      · cases hsubmit : rxSessionSubmitBurst s.rx s.txRequest cfg.hmacKey with
        | none => exact stagedBy_finish _ _ _
        | some rx => rfl
      · cases hpoll : rxSessionPollBurst s.rx with
        | none => rfl
        | some p => exact stagedBy_finish _ _ _

theorem stagedBy_runBurst (radio : Radio) :
    stagedBy source (TxHandoff.runBurst sha1 radio s).log = stagedBy source s.log := by
  unfold TxHandoff.runBurst
  split
  · exact (stagedBy_append _ _).trans (List.append_nil _)
  · rfl

theorem stagedBy_takeRequest : stagedBy source (TxHandoff.takeRequest s).log = stagedBy source s.log := by
  unfold TxHandoff.takeRequest
  split
  · split_ifs
    · rfl
    · rfl
  · rfl

theorem stagedBy_publish : stagedBy source (TxHandoff.publish s).log = stagedBy source s.log := by
  unfold TxHandoff.publish
  split
  · rfl
  · rfl

/-- The requests of one source that were put on the air, or tried to be. -/
def burstBy (source : List UInt8) (log : List TxEvent) : List TxRequestSlot :=
  log.filterMap fun
    | .burst req _ _ _ => if req.txSource = source then some req else none
    | _ => none

theorem burstBy_append (log log' : List TxEvent) :
    burstBy source (log ++ log') = burstBy source log ++ burstBy source log' :=
  List.filterMap_append

/-- The request, if it is of this source. -/
theorem filterMap_source {pick : TxEvent → Option TxRequestSlot} {e : TxEvent} {req : TxRequestSlot}
    (hpick : pick e = if req.txSource = source then some req else none) (rest : List TxEvent) :
    (e :: rest).filterMap pick = (if req.txSource = source then [req] else []) ++ rest.filterMap pick := by
  by_cases hsource : req.txSource = source
  · rw [if_pos hsource, List.filterMap_cons_some (hpick.trans (if_pos hsource))]
    rfl
  · rw [if_neg hsource, List.filterMap_cons_none (hpick.trans (if_neg hsource))]
    rfl

theorem burstBy_burst (req : TxRequestSlot) (key : List UInt8) (lost : Bool) (result : RxBurstResult)
    (rest : List TxEvent) : burstBy source (.burst req key lost result :: rest) =
      (if req.txSource = source then [req] else []) ++ burstBy source rest :=
  filterMap_source rfl rest

/-- Behind the staging of a request there is at most one burst, of this request. -/
theorem sublist_of_staged (req : TxRequestSlot) {rest : List TxEvent}
    (hrest : (burstBy source rest).Sublist (if req.txSource = source then [req] else [])) :
    (burstBy source (.staged req :: rest)).Sublist (stagedBy source (.staged req :: rest)) := by
  have hstaged : stagedBy source (.staged req :: rest) =
      (if req.txSource = source then [req] else []) ++ stagedBy source rest := filterMap_source rfl rest
  rw [hstaged]
  exact hrest.trans (List.sublist_append_left _ _)

theorem sublist_of_burst {req : TxRequestSlot} {key : List UInt8} {lost : Bool} {result : RxBurstResult}
    {rest : List TxEvent} (hrest : burstBy source rest = []) :
    (burstBy source (.staged req :: .burst req key lost result :: rest)).Sublist
      (stagedBy source (.staged req :: .burst req key lost result :: rest)) := by
  refine sublist_of_staged req ?_
  rw [burstBy_burst, hrest, List.append_nil]

theorem burstBy_round {events : List TxEvent} (h : Round sha1 cfg events) :
    (burstBy source events).Sublist (stagedBy source events) := by
  cases h with
  | refused hreason => exact sublist_of_staged _ (List.nil_sublist _)
  | sent hok => exact sublist_of_burst rfl
  | failed hrun hbad => exact sublist_of_burst rfl
  | lost => exact sublist_of_burst rfl

/-- Nothing goes on the air but what was staged, in order and at most once. -/
theorem burstBy_sublist (h : Phase sha1 cfg s) : (burstBy source s.log).Sublist (stagedBy source s.log) := by
  obtain ⟨log, last, ⟨rounds, rfl, hrounds⟩, heq, hlast⟩ := h.log_eq
  have hall : (burstBy source rounds.flatten).Sublist (stagedBy source rounds.flatten) := by
    clear heq hlast
    induction rounds with
    | nil => exact List.nil_sublist _
    | cons events rounds ih =>
        rw [List.flatten_cons, burstBy_append, stagedBy_append]
        exact (burstBy_round (hrounds events List.mem_cons_self)).append
          (ih fun x hx => hrounds x (List.mem_cons_of_mem _ hx))
  rw [heq, burstBy_append, stagedBy_append]
  refine hall.append ?_
  rcases hlast with ⟨-, rfl⟩ | ⟨-, hopen⟩
  · exact List.nil_sublist _
  · cases hopen with
    | staged => exact sublist_of_staged _ (List.nil_sublist _)
    | burst lost result => exact sublist_of_burst rfl

/-- A tick of the auto modal stages nothing of the form's. -/
theorem stagedBy_autoTick {o : Operator} (env : TickEnv) :
    stagedBy (text "manual send") (autoTcmdTick ses env o).handoff.log =
      stagedBy (text "manual send") o.handoff.log := by
  have hsource : text "manual send" ≠ snprintf 16 (text "auto-cmd (file)") := by decide
  unfold autoTcmdTick
  dsimp only
  split_ifs with hactive hstate hpass hidx hsdr htime hpending hst hlen
  all_goals first | rfl | skip
  refine (stagedBy_append _ _).trans ?_
  show _ ++ List.filterMap _ [_] = _
  rw [List.filterMap_cons_none, List.filterMap_nil, List.append_nil]
  exact if_neg hsource.symm

theorem phase_autoTick {o : Operator} (env : TickEnv) (hphase : Phase sha1 cfg o.handoff) :
    Phase sha1 cfg (autoTcmdTick ses env o).handoff := by
  unfold autoTcmdTick
  dsimp only
  split_ifs with hactive hstate hpass hidx hsdr htime hpending hst hlen
  all_goals first | exact hphase | skip
  have hauto := phase_step hphase (.autoTcmdStage
    (expansion ses env.utcMs (o.auto.cmds.getD o.auto.cmdIdx [])).out
    (if (expansion ses env.utcMs (o.auto.cmds.getD o.auto.cmdIdx [])).status = .ok
      then o.auto.cmds.getD o.auto.cmdIdx [] else [])
    (o.auto.sendSummary (expansion ses env.utcMs (o.auto.cmds.getD o.auto.cmdIdx []))
      (o.auto.cmds.getD o.auto.cmdIdx [])))
  unfold TxHandoff.step TxHandoff.autoTcmdStage at hauto
  dsimp only at hauto
  rwa [if_neg hpending, if_neg hlen] at hauto

end HandOff

/-! ## What a step does -/

/-- What an action does to both modals. -/
inductive Change (sha1 : List UInt8 → Bytes 20) (cfg : Config) (ses : Session) (ipc : Bool) (d : Desk) : Desk → Prop
  | operator (o : Operator) (hcompose : o.composeActive = d.op.composeActive)
      (hstaged : stagedBy (text "manual send") o.handoff.log = stagedBy (text "manual send") d.op.handoff.log)
      (hphase : Phase sha1 cfg d.op.handoff → Phase sha1 cfg o.handoff) :
      Change sha1 cfg ses ipc d { d with op := o }
  | opened (hipc : ipc = true) (now : ℤ) :
      Change sha1 cfg ses ipc d { d with
        op := { d.op with composeActive := true }, form := openedForm cfg ses d.tx, lastEditNs := now, drafts := [] }
  | edited (c : TxCompose) (key : ℤ) (hc : d.form.press d.tx.history key = some c) (now : ℤ) :
      Change sha1 cfg ses ipc d { d with form := c, lastEditNs := now }
  | refused (msg : List UInt8) (now : ℤ) :
      Change sha1 cfg ses ipc d { d with form := { d.form with statusMsg := msg }, lastEditNs := now }
  | cancelled : Change sha1 cfg ses ipc d (txComposeClose { d with tx := txComposeRemember d.tx d.form })
  | committed (hvalid : txComposeValidate d.form = none) (utcMs : Int64) (h : Handoff)
      (hok : txComposeCommit cfg ses utcMs d.form d.op.handoff = .ok h) :
      Change sha1 cfg ses ipc d (txComposeClose { d with
        op := { d.op with handoff := h }
        tx := txComposeRemember { d.tx with history := txHistoryPush d.tx.history d.form.payload.buf } d.form
        commits := d.commits ++ [⟨d.form, utcMs, h.txRequest⟩] })
  | pumped : Change sha1 cfg ses ipc d { d with
        form := { d.form with previewDirty := false }
        drafts := if ipc then d.drafts ++ [txComposeFillEvent d.form] else d.drafts }

section Steps
variable {sha1 : List UInt8 → Bytes 20} {cfg : Config} {ses : Session} {ipc : Bool} {d : Desk}

theorem Change.same : Change sha1 cfg ses ipc d d := .operator d.op rfl rfl id

/-- What keeps the hand-off. -/
theorem Change.kept {o : Operator} (hcompose : o.composeActive = d.op.composeActive)
    (hhandoff : o.handoff = d.op.handoff) : Change sha1 cfg ses ipc d { d with op := o } :=
  .operator o hcompose (congrArg (fun h => stagedBy _ (Handoff.log h)) hhandoff) fun h => hhandoff ▸ h

theorem keyStep_kept {now key : ℤ} {s t : Operator} (h : KeyStep ses now key s t) :
    t.composeActive = s.composeActive ∧ t.handoff = s.handoff := by
  cases h with
  | same => exact ⟨rfl, rfl⟩
  | edited => exact ⟨rfl, rfl⟩
  | started => exact ⟨rfl, rfl⟩
  | interrupted => exact ⟨rfl, rfl⟩
  | continued => exact ⟨rfl, rfl⟩
  | stopped => exact ⟨rfl, rfl⟩
  | parked => exact ⟨rfl, rfl⟩
  | resumed => exact ⟨rfl, rfl⟩
  | restarted => exact ⟨rfl, rfl⟩
  | closed => exact ⟨rfl, rfl⟩

theorem openStep_kept {env : OpenEnv} {s t : Operator} (h : OpenStep ses env s t) :
    t.composeActive = s.composeActive ∧ t.handoff = s.handoff := by
  cases h with
  | same => exact ⟨rfl, rfl⟩
  | prompted => exact ⟨rfl, rfl⟩
  | lost => exact ⟨rfl, rfl⟩
  | unloaded => exact ⟨rfl, rfl⟩
  | reloaded => exact ⟨rfl, rfl⟩
  | windowless => exact ⟨rfl, rfl⟩

theorem tickStep_composeActive {env : TickEnv} {s t : Operator} (h : TickStep ses env s t) :
    t.composeActive = s.composeActive := by
  cases h with
  | same => rfl
  | passOver => rfl
  | done => rfl
  | stopped => rfl
  | skipped => rfl
  | sent => rfl

theorem change_open (window : Bool) (now : ℤ) :
    Change sha1 cfg ses ipc d (txComposeOpen cfg ses ipc window now d) := by
  unfold txComposeOpen
  split_ifs with hipc hcompose hactive hwindow
  · exact .same
  · exact .same
  · exact .same
  · exact .same
  · exact .opened (Bool.eq_true_of_not_eq_false hipc) now

/-- The desk after a key whose handler says whether the modal stays open. -/
def settle (p : Desk × Bool) : Desk := if p.2 then p.1 else txComposeClose p.1

theorem change_enter (now : ℤ) (utcMs : Int64) :
    Change sha1 cfg ses ipc d (settle (enterKey cfg ses now utcMs d)) := by
  unfold enterKey
  cases hvalid : txComposeValidate d.form with
  | some err => exact .refused _ now
  | none =>
      cases hcommit : txComposeCommit cfg ses utcMs d.form d.op.handoff with
      | error err => exact .refused _ now
      | ok h => exact .committed hvalid utcMs h hcommit

theorem change_pressed (now : ℤ) (utcMs : Int64) (key : ℤ) :
    Change sha1 cfg ses ipc d (settle (if key = keyOf '\n' ∨ key = keyOf '\r' ∨ key = keyEnter
      then enterKey cfg ses now utcMs d
      else match d.form.press d.tx.history key with
        | some c => ({ d with form := c, lastEditNs := now }, true)
        | none => (d, true))) := by
  split_ifs with henter
  · exact change_enter now utcMs
  · cases hpress : d.form.press d.tx.history key with
    | none => exact .same
    | some c => exact .edited c key hpress now

theorem change_key (now : ℤ) (utcMs : Int64) (key : ℤ) (waiting : List ℤ) :
    Change sha1 cfg ses ipc d (inputHandleKeys cfg ses now utcMs d key waiting) := by
  unfold inputHandleKeys
  by_cases hopen : d.op.composeActive = true
  · rw [if_pos hopen]
    change Change sha1 cfg ses ipc d (settle (txComposeHandleKey cfg ses now utcMs d key waiting))
    unfold txComposeHandleKey
    have hshown : ¬d.op.composeActive = false := by rw [hopen]; decide
    dsimp only
    rw [if_neg hshown]
    by_cases herr : key = keyErr
    · rw [if_pos herr]
      exact .same
    rw [if_neg herr]
    by_cases hesc : key = 27
    · rw [if_pos hesc]
      cases txDrainCsi waiting with
      | none => exact .cancelled
      | some translated => exact change_pressed now utcMs translated
    · rw [if_neg hesc]
      exact change_pressed now utcMs key
  · rw [if_neg hopen]
    rcases keyStep_of ses now d.op key waiting with hsame | ⟨-, -, k, -, hstep⟩
    · rw [hsame]
      exact .same
    · exact .kept (keyStep_kept hstep).1 (keyStep_kept hstep).2

theorem txComposePump_eq_or (ipc : Bool) (now : ℤ) (d : Desk) :
    txComposePump ipc now d = d ∨
      txComposePump ipc now d = { d with
        form := { d.form with previewDirty := false }
        drafts := if ipc then d.drafts ++ [txComposeFillEvent d.form] else d.drafts } := by
  unfold txComposePump
  by_cases hclosed : d.op.composeActive = false
  · exact .inl (if_pos hclosed)
  by_cases hdirty : d.form.previewDirty = true ∧ gTxComposeDebounceNs ≤ now - d.lastEditNs
  · rw [if_neg hclosed]
    exact .inr (if_pos hdirty)
  · rw [if_neg hclosed]
    exact .inl (if_neg hdirty)

theorem change_pump (now : ℤ) : Change sha1 cfg ses ipc d (txComposePump ipc now d) := by
  rcases txComposePump_eq_or ipc now d with heq | heq
  · rw [heq]
    exact .same
  · rw [heq]
    exact .pumped

/-- A step of the hand-off that stages nothing. -/
theorem change_handOn (a : TxHandoff.Action)
    (hstaged : stagedBy (text "manual send") (TxHandoff.step sha1 cfg d.op.handoff a).log =
      stagedBy (text "manual send") d.op.handoff.log) : Change sha1 cfg ses ipc d (handOn sha1 cfg d a) :=
  .operator { d.op with handoff := TxHandoff.step sha1 cfg d.op.handoff a } rfl hstaged fun h => phase_step h a

theorem change_step (a : Action) : Change sha1 cfg ses ipc d (step sha1 cfg ses ipc d a) := by
  cases a with
  | composeOpen window now => exact change_open window now
  | key now utcMs key waiting => exact change_key now utcMs key waiting
  | composePump now => exact change_pump now
  | autoOpen env =>
      obtain ⟨hcompose, hhandoff⟩ := openStep_kept (openStep_of ses env d.op)
      exact .kept hcompose hhandoff
  | autoTick env =>
      exact .operator _ (tickStep_composeActive (tickStep_of ses env d.op)) (stagedBy_autoTick env)
        fun h => phase_autoTick env h
  | serviceRequest => exact change_handOn _ stagedBy_serviceRequest
  | takeRequest => exact change_handOn _ stagedBy_takeRequest
  | runBurst radio => exact change_handOn _ (stagedBy_runBurst radio)
  | publish => exact change_handOn _ stagedBy_publish
  | deviceLost => exact change_handOn _ rfl

end Steps

/-! ## What every run keeps -/

section History
variable {payloads : List (List UInt8)} {payload : List UInt8}

/-- The history is the last payloads that were sent, the newest first. -/
theorem txHistoryPush_recent (hfits : payload.length < TxField.payload.size) :
    txHistoryPush (Ring.recent txHistoryMax (CmdLine.collapse payloads)).reverse payload =
      (Ring.recent txHistoryMax (CmdLine.collapse (payloads ++ [payload]))).reverse := by
  have hpos : 0 < txHistoryMax := by decide
  unfold txHistoryPush
  rw [CmdLine.collapse_append, List.head?_reverse, CmdLine.getLast?_recent hpos]
  by_cases hnil : payload = []
  · rw [if_pos hnil, if_pos (.inl hnil)]
  by_cases hlast : (CmdLine.collapse payloads).getLast? = some payload
  · rw [if_neg hnil, if_pos hlast, if_pos (.inr hlast)]
  rw [if_neg hnil, if_neg hlast, if_neg (not_or.mpr ⟨hnil, hlast⟩)]
  generalize CmdLine.collapse payloads = sent
  have hcopy : snprintf TxField.payload.size payload = payload := List.take_of_length_le (Nat.le_sub_one_of_lt hfits)
  have hkeep : (Ring.recent txHistoryMax sent).reverse.take (txHistoryMax - 1) =
      (Ring.recent (txHistoryMax - 1) sent).reverse := by
    rw [List.take_reverse, ← Ring.recent_recent (Nat.sub_le txHistoryMax 1)]
    rfl
  have hmin (keep : List (List UInt8)) :
      keep.take (if keep.length < txHistoryMax - 1 then keep.length else txHistoryMax - 1) =
        keep.take (txHistoryMax - 1) := by
    split_ifs with hlt
    · rw [List.take_length, List.take_of_length_le hlt.le]
    · rfl
  dsimp only
  rw [hcopy, hmin, hkeep, Ring.recent_append (by rw [List.length_singleton]; omega), List.reverse_append]
  rfl

theorem clean_txHistoryPush {history : List (List UInt8)} (hhistory : ∀ s ∈ history, Clean s) (hclean : Clean payload) :
    ∀ s ∈ txHistoryPush history payload, Clean s := by
  intro s hs
  unfold txHistoryPush at hs
  by_cases hnil : payload = []
  · rw [if_pos hnil] at hs
    exact hhistory s hs
  by_cases hhead : history.head? = some payload
  · rw [if_neg hnil, if_pos hhead] at hs
    exact hhistory s hs
  rw [if_neg hnil, if_neg hhead] at hs
  rcases List.mem_cons.mp hs with rfl | hs
  · exact hclean.take _
  · exact hhistory s (List.mem_of_mem_take hs)

end History

/-- What is remembered of the form can be shown again. -/
structure TxOk (tx : Tx) : Prop where
  payload : Clean tx.lastPayload
  power : tx.lastPower.length < TxField.power.size ∧ ∀ ch ∈ tx.lastPower, TxField.power.accepts ch = true
  history : ∀ s ∈ tx.history, Clean s

/-- The form, what is remembered of it, and what has been staged from it. -/
structure Inv (sha1 : List UInt8 → Bytes 20) (cfg : Config) (ses : Session) (d : Desk) : Prop where
  form : FormOk d.form
  tx : TxOk d.tx
  recent : d.tx.history =
    (Ring.recent txHistoryMax (CmdLine.collapse (d.commits.map (·.form.payload.buf)))).reverse
  sound : ∀ c ∈ d.commits, c.Sound sha1 cfg ses
  staged : stagedBy (text "manual send") d.op.handoff.log = d.commits.map Commit.request
  phase : Phase sha1 cfg d.op.handoff

section Runs
variable {sha1 : List UInt8 → Bytes 20} {cfg : Config} {ses : Session} {ipc : Bool} {d : Desk}

theorem TxOk.remember {tx : Tx} (h : TxOk tx) {c : TxCompose} (hc : FormOk c) : TxOk (txComposeRemember tx c) :=
  ⟨hc.clean.take _, ⟨(List.length_take_le' _ _).trans_lt hc.power.fits,
    fun ch hch => hc.power.accepted ch (List.mem_of_mem_take hch)⟩, h.history⟩

theorem formOk_txComposeInit {tx : Tx} (h : TxOk tx) : FormOk (txComposeInit tx) := by
  have hpayload := h.payload.take (TxField.payload.size - 1)
  exact ⟨.ofText (Nat.lt_succ_of_le hpayload.fits) hpayload.accepted,
    .ofText ((List.length_take_le' _ _).trans_lt h.power.1)
      fun ch hch => h.power.2 ch (List.mem_of_mem_take hch), .nil⟩

theorem formOk_openedForm {tx : Tx} (h : TxOk tx) : FormOk (openedForm cfg ses tx) := by
  unfold openedForm
  split_ifs
  · exact (formOk_txComposeInit h).same rfl rfl rfl
  · exact formOk_txComposeInit h

theorem inv_init : Inv sha1 cfg ses init where
  form := ⟨.ofText (by decide) nofun, .ofText (by decide) nofun, .nil⟩
  tx := ⟨.nil, ⟨by decide, nofun⟩, nofun⟩
  recent := rfl
  sound := nofun
  staged := rfl
  phase := phase_run sha1 cfg []

theorem Inv.change (h : Inv sha1 cfg ses d) {d' : Desk} (hc : Change sha1 cfg ses ipc d d') :
    Inv sha1 cfg ses d' := by
  cases hc with
  | operator o hcompose hstaged hphase =>
      exact ⟨h.form, h.tx, h.recent, h.sound, hstaged.trans h.staged, hphase h.phase⟩
  | opened hipc now => exact ⟨formOk_openedForm h.tx, h.tx, h.recent, h.sound, h.staged, h.phase⟩
  | edited c key hc now =>
      exact ⟨h.form.press h.tx.history key c hc, h.tx, h.recent, h.sound, h.staged, h.phase⟩
  | refused msg now => exact ⟨h.form.same rfl rfl rfl, h.tx, h.recent, h.sound, h.staged, h.phase⟩
  | cancelled => exact ⟨h.form, h.tx.remember h.form, h.recent, h.sound, h.staged, h.phase⟩
  | committed hvalid utcMs s hok =>
      have hsound : Commit.Sound sha1 cfg ses ⟨d.form, utcMs, s.txRequest⟩ := sound_of_commit h.form hvalid hok
      obtain ⟨-, -, -, -, origin, summary, heq, hstage⟩ := txComposeCommit_ok hok
      refine ⟨h.form, ?_, ?_, fun c hc => ?_, ?_, ?_⟩
      · have hpushed := clean_txHistoryPush h.tx.history h.form.clean
        have htx : TxOk { d.tx with history := txHistoryPush d.tx.history d.form.payload.buf } :=
          ⟨h.tx.payload, h.tx.power, hpushed⟩
        exact htx.remember h.form
      · show txHistoryPush d.tx.history d.form.payload.buf = (Ring.recent txHistoryMax
          (CmdLine.collapse ((d.commits ++ [Commit.mk d.form utcMs s.txRequest]).map (·.form.payload.buf)))).reverse
        rw [h.recent, List.map_append]
        exact txHistoryPush_recent (h.form.clean.fits.trans_lt (by decide))
      · rcases List.mem_append.mp hc with hc | hc
        · exact h.sound c hc
        · exact List.mem_singleton.mp hc ▸ hsound
      · show stagedBy _ s.log = (d.commits ++ [_]).map Commit.request
        rw [List.map_append, ← h.staged, hstage]
        exact stagedBy_append _ _
      · show Phase sha1 cfg s
        rw [heq]
        exact phase_step h.phase (.composeCommit _ _ _)
  | pumped => exact ⟨h.form.same rfl rfl rfl, h.tx, h.recent, h.sound, h.staged, h.phase⟩

theorem inv_run (actions : List Action) : Inv sha1 cfg ses (run sha1 cfg ses ipc actions) := by
  unfold run
  induction actions using List.reverseRecOn with
  | nil => exact inv_init
  | append_singleton actions a ih =>
      rw [List.foldl_append]
      exact ih.change (change_step a)

/-- **The compose modal stages what a valid form asked for and nothing else**, whatever is typed, recalled, opened and
closed and however the auto modal, the main loop and the TX thread take turns. Every request under its name has its
own Enter, on a session that can transmit, with the permission set, a power in the range and a payload of printable
characters; the request carries its expansion, and under every key it is framed and read back. Nothing else of its
name goes on the air, and no request twice. The history is the payloads sent. -/
theorem compose_sends (sha1 : List UInt8 → Bytes 20) (cfg : Config) (ses : Session) (ipc : Bool)
    (actions : List Action) :
    let d := run sha1 cfg ses ipc actions
    stagedBy (text "manual send") d.op.handoff.log = d.commits.map Commit.request ∧
    (∀ c ∈ d.commits, c.Sound sha1 cfg ses) ∧
    (burstBy (text "manual send") d.op.handoff.log).Sublist (d.commits.map Commit.request) ∧
    d.tx.history = (Ring.recent txHistoryMax (CmdLine.collapse (d.commits.map (·.form.payload.buf)))).reverse ∧
    FormOk d.form := by
  intro d
  have h : Inv sha1 cfg ses d := inv_run actions
  exact ⟨h.staged, h.sound, h.staged ▸ burstBy_sublist h.phase, h.recent, h.form⟩

end Runs

/-! ## Drafts -/

section Drafts
variable {sha1 : List UInt8 → Bytes 20} {cfg : Config} {ses : Session} {ipc : Bool} {d : Desk}

/-- The form as viewers know it: the last draft, or the form as it was opened. -/
def seen (cfg : Config) (ses : Session) (d : Desk) : Draft :=
  d.drafts.getLast?.getD (txComposeFillEvent (openedForm cfg ses d.tx))

/-- A change of the form is marked, unless nothing of what viewers see has changed. -/
def Marked (c c' : TxCompose) : Prop :=
  c'.previewDirty = true ∨ c'.previewDirty = c.previewDirty ∧ txComposeFillEvent c' = txComposeFillEvent c

namespace Marked

theorem edit (c : TxCompose) (f : TextField → TextField × Bool) : Marked c (c.edit f) := by
  unfold TxCompose.edit
  split
  · split_ifs
    · exact .inl rfl
    · exact .inr ⟨rfl, rfl⟩
  · split_ifs
    · exact .inl rfl
    · exact .inr ⟨rfl, rfl⟩
  · exact .inr ⟨rfl, rfl⟩

theorem move {c : TxCompose} {f : TextField → TextField} (hf : ∀ t, (f t).buf = t.buf) : Marked c (c.move f) := by
  have hfill {payload power : List UInt8} (hpayload : payload = c.payload.buf) (hpower : power = c.power.buf) :
      Draft.mk (snprintf txTextMax payload) (atof power) c.allowTx = txComposeFillEvent c := by
    rw [hpayload, hpower]
    rfl
  unfold TxCompose.move
  split
  · exact .inr ⟨rfl, hfill (hf _) rfl⟩
  · exact .inr ⟨rfl, hfill rfl (hf _)⟩
  · exact .inr ⟨rfl, rfl⟩

theorem insert (c : TxCompose) (ch : UInt8) : Marked c (c.insert ch) := by
  unfold TxCompose.insert
  split_ifs
  · exact .inr ⟨rfl, rfl⟩
  · exact .edit c _
  · exact .inr ⟨rfl, rfl⟩

theorem historyRecall (c : TxCompose) (history : List (List UInt8)) (older : Bool) :
    Marked c (c.historyRecall history older) := by
  unfold TxCompose.historyRecall
  split
  · exact .inr ⟨rfl, rfl⟩
  · exact .inl rfl

theorem press {c : TxCompose} (history : List (List UInt8)) (key : ℤ) : ∀ c' ∈ c.press history key, Marked c c' := by
  have hfocus (f : TxField) : Marked c (c.moveFocus f) := Marked.move (c := { c with focus := f }) fun _ => rfl
  have hright (t : TextField) : t.uiTfRight.buf = t.buf := by
    unfold TextField.uiTfRight
    split_ifs
    · rfl
    · rfl
  unfold TxCompose.press
  refine pressed_orElse (hfocus _) (pressed_orElse (hfocus _) ?_)
  refine pressed_orElse (.edit c _) (pressed_orElse (.edit c _) ?_)
  refine pressed_orElse (.edit c _) (pressed_orElse (.edit c _) ?_)
  refine pressed_orElse (.move fun _ => rfl) (pressed_orElse (.move hright) ?_)
  refine pressed_orElse (.move fun _ => rfl) (pressed_orElse (.move fun _ => rfl) ?_)
  refine pressed_orElse (.historyRecall c _ _) (pressed_orElse (.historyRecall c _ _) ?_)
  refine pressed_orElse (.inl rfl) (pressed_orElse (.insert c _) ?_)
  exact fun _ hnone => nomatch hnone

end Marked

/-- While the modal is open, what viewers have not been sent is marked. -/
structure Drafted (cfg : Config) (ses : Session) (ipc : Bool) (d : Desk) : Prop where
  ipc_of_open : d.op.composeActive = true → ipc = true
  seen_of_clean : d.op.composeActive = true → d.form.previewDirty = false →
    seen cfg ses d = txComposeFillEvent d.form

theorem Drafted.change (h : Drafted cfg ses ipc d) {d' : Desk} (hc : Change sha1 cfg ses ipc d d') :
    Drafted cfg ses ipc d' := by
  cases hc with
  | operator o hcompose hstaged hphase =>
      exact ⟨fun hopen => h.ipc_of_open (hcompose ▸ hopen), fun hopen => h.seen_of_clean (hcompose ▸ hopen)⟩
  | opened hipc now => exact ⟨fun _ => hipc, fun _ _ => rfl⟩
  | edited c key hc now =>
      refine ⟨h.ipc_of_open, fun hopen hclean => ?_⟩
      rcases Marked.press d.tx.history key c hc with hdirty | ⟨hsame, hfill⟩
      · exact absurd (hdirty.symm.trans hclean) (by decide)
      · exact (h.seen_of_clean hopen (hsame.symm.trans hclean)).trans hfill.symm
  | refused msg now => exact ⟨h.ipc_of_open, h.seen_of_clean⟩
  | cancelled => exact ⟨nofun, nofun⟩
  | committed hvalid utcMs s hok => exact ⟨nofun, nofun⟩
  | pumped =>
      refine ⟨h.ipc_of_open, fun hopen _ => ?_⟩
      unfold seen
      dsimp only
      rw [if_pos (h.ipc_of_open hopen), List.getLast?_concat]
      rfl

theorem drafted_run (actions : List Action) : Drafted cfg ses ipc (run sha1 cfg ses ipc actions) := by
  unfold run
  induction actions using List.reverseRecOn with
  | nil => exact ⟨nofun, nofun⟩
  | append_singleton actions a ih =>
      rw [List.foldl_append]
      exact ih.change (change_step a)

theorem drafted_pump (h : Drafted cfg ses ipc d) {now : ℤ} (hopen : d.op.composeActive = true)
    (hrest : gTxComposeDebounceNs ≤ now - d.lastEditNs) :
    seen cfg ses (txComposePump ipc now d) = txComposeFillEvent d.form := by
  have hshown : ¬d.op.composeActive = false := by rw [hopen]; decide
  unfold txComposePump
  rw [if_neg hshown]
  split_ifs with hdirty hipc
  · unfold seen
    rw [List.getLast?_concat]
    rfl
  · exact absurd (h.ipc_of_open hopen) hipc
  · exact h.seen_of_clean hopen (Bool.eq_false_of_not_eq_true fun hd => hdirty ⟨hd, hrest⟩)

/-- **Viewers are sent what the form shows**: while the modal is open and its form is not marked, the last draft, or
where there is none the form as it was opened, has the payload, the power and the permission of the form; and a pump
that comes 200 ms behind the last key leaves it so, whatever was typed before. -/
theorem compose_drafts (sha1 : List UInt8 → Bytes 20) (cfg : Config) (ses : Session) (ipc : Bool)
    (actions : List Action) (now : ℤ) :
    let d := run sha1 cfg ses ipc actions
    let d' := run sha1 cfg ses ipc (actions ++ [.composePump now])
    (d.op.composeActive = true → d.form.previewDirty = false → seen cfg ses d = txComposeFillEvent d.form) ∧
    (d.op.composeActive = true → gTxComposeDebounceNs ≤ now - d.lastEditNs →
      seen cfg ses d' = txComposeFillEvent d'.form ∧ txComposeFillEvent d'.form = txComposeFillEvent d.form) := by
  intro d d'
  have h : Drafted cfg ses ipc d := drafted_run actions
  have hpump : d' = txComposePump ipc now d := List.foldl_append
  have hfill : txComposeFillEvent d'.form = txComposeFillEvent d.form := by
    rw [hpump]
    rcases txComposePump_eq_or ipc now d with heq | heq
    · rw [heq]
    · rw [heq]
      rfl
  refine ⟨h.seen_of_clean, fun hopen hrest => ⟨?_, hfill⟩⟩
  rw [hfill, hpump]
  exact drafted_pump h hopen hrest

end Drafts

end SimpleSatOps.TxComposeModal
