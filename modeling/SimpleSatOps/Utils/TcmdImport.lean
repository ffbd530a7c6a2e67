import SimpleSatOps.Control.OperatorAudio
import SimpleSatOps.Ipc.Audit.Record
import SimpleSatOps.Pipeline.TxHandoff
import SimpleSatOps.Utils.TcmdImport.Directive

/-!
# Sent telecommands, recorded live and imported from a `tx.log`

The TX thread records a telecommand in `sent_tcmd` from the bytes of the request (`worker_record_sent_tcmd`); the tool
`tcmd_import` records it from the `tx-command-sent` line that was logged for the burst.

* `SentTcmdRow`, `packetDbInsertSentTcmd` : the table;
* `workerRecordSentTcmd` : the live record;
* `txEvent`, `txLogLine` : the event of a burst, and its line in the log;
* `importLine`, `importFile` : the import;
* `txLogLine_sent`, `burstSummary_eq` : the line, and the summary on it;
* `Misread`, `strstr_lineHead` : where the importer finds the summary;
* `live_eq`, `imported_eq` : what is stored live, and from the line;
* `import_agrees_iff` : when they agree.
-/

namespace SimpleSatOps.TcmdImport
open Ipc Json Search AgendaLine TxHandoff OperatorAudio

/-! ## The table -/

/-- `sent_tcmd_record_t`; no gain is `NAN`. -/
structure SentTcmdRecord where
  tsSentMs : ℤ
  tsexecMs : ℤ
  commandText : List UInt8
  txFreqHz : ℤ
  txGainDb : Option Double
  sourceTool : List UInt8
  sourceRun : List UInt8
  tsTransmitted : List UInt8
deriving DecidableEq

/-- A row of `sent_tcmd`, without its `id`; `none` is `NULL`. -/
structure SentTcmdRow where
  tsSentMs : ℤ
  tsexecMs : Option ℤ
  commandText : List UInt8
  txFreqHz : Option ℤ
  txGainDb : Option Double
  sourceTool : List UInt8
  sourceRun : List UInt8
  tsTransmitted : List UInt8
deriving DecidableEq

/-- The values that `packet_db_insert_sent_tcmd` binds. -/
def SentTcmdRecord.toRow (r : SentTcmdRecord) : SentTcmdRow where
  tsSentMs := r.tsSentMs
  tsexecMs := if 0 ≤ r.tsexecMs then some r.tsexecMs else none
  commandText := r.commandText
  txFreqHz := if 0 < r.txFreqHz then some r.txFreqHz else none
  txGainDb := r.txGainDb
  sourceTool := r.sourceTool
  sourceRun := r.sourceRun
  tsTransmitted := r.tsTransmitted

/-- `packet_db_insert_sent_tcmd`: `INSERT OR IGNORE`, with `UNIQUE (ts_sent_ms, source_run)`. -/
def packetDbInsertSentTcmd (table : List SentTcmdRow) (r : SentTcmdRecord) : List SentTcmdRow :=
  if ∃ row ∈ table, row.tsSentMs = r.tsSentMs ∧ row.sourceRun = r.sourceRun then table else table ++ [r.toRow]

/-- `agenda_parse_directive_ms`. -/
def directiveMs (key : String) (cmd : List UInt8) : Option ℤ :=
  (agendaParseDirectiveMs (text key) cmd).map fun number => (strtol number).getD 0

/-! ## The live record -/

/-- What the live record takes from elsewhere: frequency and gain of the request, the run and the time. -/
structure Session where
  txFreqHz : ℤ
  txGainDb : Option Double
  dbRunId : List UInt8
  tsTx : List UInt8

/-- `worker_record_sent_tcmd`. -/
def workerRecordSentTcmd (session : Session) (req : TxRequestSlot) (table : List SentTcmdRow) : List SentTcmdRow :=
  if req.isHex ∨ req.payload = [] then table
  else
    let cmd := cstr (req.payload.take (payloadCap - 1))
    match directiveMs "@tssent=" cmd with
    | none => table
    | some tsSent =>
        packetDbInsertSentTcmd table
          { tsSentMs := tsSent
            tsexecMs := (directiveMs "@tsexec=" cmd).getD (-1)
            commandText := cmd
            txFreqHz := session.txFreqHz
            txGainDb := session.txGainDb
            sourceTool := text "simple_sat_ops"
            sourceRun := session.dbRunId
            tsTransmitted := session.tsTx }

/-! ## The logged line -/

/-- The event of `emit_tx_event_local`; an empty status is a `NULL` one. -/
def txEvent (clock : AuditLog.Timespec) (operatorUser : Option (List UInt8)) (txSource : List UInt8) (type : EventType)
    (summary ackStatus : List UInt8) : Event :=
  let e := ssoEventInit (printed _ (AuditLog.ssoIsoUtcFromTs clock 40)) type
  let e := e.setStr .fromName (printed _ (operatorUser.getD (text "?")))
  let e := e.setStr .txOrigin (printed _ txSource)
  let e := if summary = [] then e else e.setStr .ascii (printed _ summary)
  if ackStatus = [] then e else e.setStr .txNotSentReason (printed _ ackStatus)

/-- What `tx_log_file_append` adds to the file. -/
def txLogLine (e : Event) : List UInt8 :=
  match ssoEventEncode e 2048 with
  | some bytes => cstr bytes
  | none => []

/-- The line of a burst that went on the air. -/
def sentLine (clock : AuditLog.Timespec) (operatorUser : Option (List UInt8)) (req : TxRequestSlot) : List UInt8 :=
  txLogLine (txEvent clock operatorUser req.txSource .txCommandSent (burstSummary req) [])

/-! ## The import -/

/-- `folder_name`, into 128 bytes. -/
def folderName (txlogPath : List UInt8) : List UInt8 :=
  let tmp := snprintf 1024 txlogPath
  let dir := if byte '/' ∈ tmp then (tmp.rdropWhile (· != byte '/')).dropLast else tmp
  let base := dir.rtakeWhile (· != byte '/')
  snprintf 128 (if base = [] then text "tx_log_import" else base)

/-- What `import_file` makes of a line. -/
def importLine (tool run line : List UInt8) : Option SentTcmdRecord := do
  let _ ← strstr (text "\"t\":\"tx-command-sent\"") line
  let ascii ← jsonStr line (text "ascii") 512
  let cmd ←
    if text "ascii:" <+: ascii then some (ascii.drop 6) else if text "hex:" <+: ascii then none else some ascii
  let tsSent ← directiveMs "@tssent=" cmd
  some
    { tsSentMs := tsSent
      tsexecMs := (directiveMs "@tsexec=" cmd).getD (-1)
      commandText := cmd
      txFreqHz := 0
      txGainDb := none
      sourceTool := tool
      sourceRun := run
      tsTransmitted := (jsonStr line (text "ts") 40).getD (text "(imported)") }

/-- `import_file`: the table, and the count of lines that were handed to it. -/
def importFile (path tool content : List UInt8) (table : List SentTcmdRow) : List SentTcmdRow × ℕ :=
  (fgets 4096 content).foldl (fun p line =>
    match importLine tool (folderName path) line with
    | some r => (packetDbInsertSentTcmd p.1 r, p.2 + 1)
    | none => p) (table, 0)

/-! ## The line of an event -/

theorem cstr_printed {n : ℕ} (hn : 0 < n) (s : List UInt8) : cstr (printed n s).1 = cstr (snprintf n s) := by
  have hlen : (snprintf n s).length < n := by
    have htake := List.length_take_le (n - 1) s
    rw [snprintf]
    omega
  obtain ⟨k, hk⟩ : ∃ k, n - (snprintf n s).length = k + 1 := ⟨n - (snprintf n s).length - 1, by omega⟩
  have hzeros : (zeros n).1.take (k + 1) = 0 :: List.replicate k 0 := by
    show (List.replicate n 0).take (k + 1) = _
    rw [List.take_replicate, Nat.min_eq_left (by omega), List.replicate_succ]
  show cstr ((snprintf n s ++ (zeros n).1).take n) = _
  rw [List.take_append, List.take_of_length_le hlen.le, hk, hzeros, cstr_append_zero]

/-- The name a line carries, `evt.from`. -/
def senderName (operatorUser : Option (List UInt8)) : List UInt8 := cstr (snprintf 64 (operatorUser.getD (text "?")))

/-- The time it carries, `evt.ts`. -/
def isoNow (clock : AuditLog.Timespec) : List UInt8 := cstr (snprintf 40 (AuditLog.ssoIsoUtcFromTs clock 40))

section
variable (clock : AuditLog.Timespec) (operatorUser : Option (List UInt8)) (txSource : List UInt8)
  {summary : List UInt8} (hne : summary ≠ []) (hlen : summary.length < TxHandoff.txTextMax) (hnul : 0 ∉ summary)

/-- The event of a burst on the air. -/
abbrev sent (summary : List UInt8) : Event := txEvent clock operatorUser txSource .txCommandSent summary []

/-- The strings of the event. -/
def sentText (summary : List UInt8) : StrField → List UInt8
  | .ts => isoNow clock
  | .fromName => senderName operatorUser
  | .ascii => summary
  | .txOrigin => cstr (snprintf 16 txSource)
  | _ => []

include hne hlen hnul in
theorem strText_sent (f : StrField) :
    (sent clock operatorUser txSource summary).strText f = sentText clock operatorUser txSource summary f := by
  have hset : ∀ (e : Event) (f g : StrField) (b : Bytes f.size),
      (e.setStr f b).strText g = if g = f then cstr b.1 else e.strText g := by
    intro e f g b
    unfold Event.setStr Event.strText
    split_ifs with h
    · subst h
      exact congrArg (fun b => cstr b.1) (Function.update_self g b e.str)
    · exact congrArg (fun b => cstr b.1) (Function.update_of_ne h b e.str)
  have hfits : cstr (snprintf StrField.ascii.size summary) = summary := by
    have hle : summary.length ≤ StrField.ascii.size - 1 := Nat.le_sub_one_of_lt hlen
    rw [snprintf, List.take_of_length_le hle, cstr_of_not_mem hnul]
  have hzero : ∀ f, Event.zero.strText f = [] := fun f => cstr_zeros f.size
  have hinit : ∀ b g, (ssoEventInit b .txCommandSent).strText g = if g = .ts then cstr b.1 else [] := by
    intro b g
    refine (hset _ .ts g b).trans ?_
    exact if_congr Iff.rfl rfl (hzero g)
  rw [sent, txEvent, if_pos rfl, if_neg hne, hset, hset, hset, hinit, cstr_printed (size_pos _), cstr_printed (size_pos _),
    cstr_printed (size_pos _), cstr_printed (size_pos _), hfits]
  cases f <;> rfl

theorem type_sent : (sent clock operatorUser txSource summary).type = .txCommandSent := by
  unfold sent txEvent
  dsimp only
  split_ifs <;> rfl

theorem plain_sent : (sent clock operatorUser txSource summary).hasState = false ∧
    (∀ f, (sent clock operatorUser txSource summary).flag f = false) ∧
    (∀ f, (sent clock operatorUser txSource summary).has f = false) ∧
    ∀ f, (sent clock operatorUser txSource summary).dbl f = .zero := by
  unfold sent txEvent
  dsimp only
  have hint : ∀ f, Event.zero.has f = false := fun f => by cases f <;> rfl
  split_ifs <;> exact ⟨rfl, fun _ => rfl, fun f => hint f, fun _ => rfl⟩

/-- The fields it may have. -/
def sentFields : List StrField :=
  [.ts, .fromName, .role, .user, .operatorUser, .prev, .newUser, .byName, .toName, .reason, .passFolder, .ascii,
    .txPayloadKind, .txPayload, .txNotSentReason, .txOrigin]

include hne hlen hnul in
theorem onWire_sent : (sent clock operatorUser txSource summary).onWire = .type :: (sentFields.filter fun f =>
    sentText clock operatorUser txSource summary f != []).map .str := by
  have hshown : ∀ f, (sent clock operatorUser txSource summary).shown (.str f) =
      (sentText clock operatorUser txSource summary f != []) := by
    intro f
    rw [Event.shown, strText_sent clock operatorUser txSource hne hlen hnul]
  obtain ⟨hstate, hflag, hint, hdbl⟩ := @plain_sent clock operatorUser txSource summary
  have hhas : (sent clock operatorUser txSource summary).hasText .txOrigin =
      (sentText clock operatorUser txSource summary .txOrigin != []) := hshown .txOrigin
  have hzero : Double.zero.nonzero = false := by decide
  have hfields : (sent clock operatorUser txSource summary).fields = .type :: (sentFields.filter fun f =>
      f != .txOrigin || sentText clock operatorUser txSource summary .txOrigin != []).map .str := by
    simp only [Event.fields, Event.headFields, Event.typeFields, Event.txFields, when, hstate, hflag, hint, hdbl, hhas,
      hzero, type_sent]
    cases sentText clock operatorUser txSource summary .txOrigin != [] <;> rfl
  have htype : (sent clock operatorUser txSource summary).shown .type = true := by
    rw [Event.shown, type_sent]
    decide
  rw [Event.onWire, hfields, List.filter_cons_of_pos htype, List.filter_map, List.filter_filter]
  refine congrArg (fun l => Slot.type :: l.map .str) (List.filter_congr fun f _ => ?_)
  rw [Function.comp_apply, hshown]
  by_cases hf : f = .txOrigin
  · subst hf
    rw [bne_self_eq_false, Bool.false_or, Bool.and_self]
  · rw [bne_iff_ne.mpr hf, Bool.true_or, Bool.and_true]

/-! ### The time -/

theorem mem_isoNow : ∀ c ∈ isoNow clock, isDigit c = true ∨ c ∈ text "-T:.Z" := by
  have hpad : ∀ w z, ∀ c ∈ zeroPadInt w z, isDigit c = true ∨ c ∈ text "-T:.Z" := by
    intro w z c hc
    unfold zeroPadInt at hc
    split_ifs at hc
    · rcases List.mem_cons.mp hc with rfl | hc
      · exact .inr (by decide)
      · exact .inl (isDigit_of_mem_zeroPad hc)
    · exact .inl (isDigit_of_mem_zeroPad hc)
  have hmarks : ∀ t ∈ ["-", "T", ":", ".", "Z"], ∀ c ∈ text t, isDigit c = true ∨ c ∈ text "-T:.Z" := by decide
  simp only [List.forall_mem_cons, List.not_mem_nil, false_imp_iff, implies_true, and_true] at hmarks
  obtain ⟨hdash, ht, hcolon, hpoint, hz⟩ := hmarks
  intro c hc
  have hall : ∀ x : List UInt8, (∀ c ∈ x, isDigit c = true ∨ c ∈ text "-T:.Z") → ∀ n, ∀ c ∈ x.take n,
      isDigit c = true ∨ c ∈ text "-T:.Z" := fun x hx n c hc => hx c (List.mem_of_mem_take hc)
  refine hall _ (hall _ ?_ 39) 39 c ((List.takeWhile_sublist _).subset hc)
  simp only [List.forall_mem_append]
  exact ⟨⟨⟨⟨⟨⟨⟨⟨⟨⟨⟨⟨⟨hpad _ _, hdash⟩, hpad _ _⟩, hdash⟩, hpad _ _⟩, ht⟩, hpad _ _⟩, hcolon⟩, hpad _ _⟩, hcolon⟩,
    hpad _ _⟩, hpoint⟩, hpad _ _⟩, hz⟩

theorem unescaped_isoNow : ∀ c ∈ isoNow clock, Unescaped c := by
  have hmarks : ∀ c ∈ text "-T:.Z", 0x20 ≤ c ∧ c ≠ byte '"' ∧ c ≠ byte '\\' := by decide
  intro c hc
  rcases mem_isoNow clock c hc with hdigit | hmark
  · simp only [isDigit, Bool.and_eq_true, decide_eq_true_eq] at hdigit
    have hlow : 0x20 ≤ byte '0' := by decide
    refine ⟨UInt8.le_trans hlow hdigit.1, ?_, ?_⟩ <;> rintro rfl <;> exact absurd hdigit (by decide)
  · exact hmarks c hmark

theorem length_isoNow_le : (isoNow clock).length ≤ 39 :=
  ((List.takeWhile_sublist _).length_le).trans (List.length_take_le 39 _)

theorem isoNow_ne_nil : isoNow clock ≠ [] := by
  have hpad : ∀ w z, ∃ b t, zeroPadInt w z = b :: t ∧ b ≠ 0 := by
    intro w z
    have hdigits : ∀ w n, ∃ b t, zeroPad w n = b :: t ∧ b ≠ 0 := by
      intro w n
      obtain ⟨b, t, heq⟩ := List.exists_cons_of_ne_nil (List.append_ne_nil_of_right_ne_nil
        (List.replicate (w - (decimal n).length) (byte '0')) (decimal_ne_nil n))
      refine ⟨b, t, heq, ?_⟩
      rintro rfl
      have hmem : (0 : UInt8) ∈ zeroPad w n := by
        rw [show zeroPad w n = _ from heq]
        exact List.mem_cons_self
      exact absurd (isDigit_of_mem_zeroPad hmem) (by decide)
    unfold zeroPadInt
    split_ifs
    · exact ⟨byte '-', _, rfl, by decide⟩
    · exact hdigits w _
  obtain ⟨b, t, heq, hb⟩ := hpad 4 ((gmtimeR clock.tvSec).tmYear + 1900)
  rw [isoNow, AuditLog.ssoIsoUtcFromTs]
  simp only [heq, snprintf, List.cons_append, List.take_succ_cons, cstr, List.takeWhile_cons, bne_iff_ne.mpr hb,
    if_true]
  exact List.cons_ne_nil _ _

/-! ### The text -/

/-- The member `from`, if there is a name. -/
def fromMember : List UInt8 :=
  if senderName operatorUser = [] then []
  else memberText (text "from") (quoted (escape (senderName operatorUser))) ++ [byte ',']

/-- The member `tx_org`, if there is a source, and the end. -/
def lineTail : List UInt8 :=
  (if cstr (snprintf 16 txSource) = [] then []
    else byte ',' :: memberText (text "tx_org") (quoted (escape (cstr (snprintf 16 txSource))))) ++ text "\x7d\n"

/-- The members behind which the summary stands. -/
def lineHead : List UInt8 :=
  byte '{' :: (memberText (text "t") (quoted (escape (text "tx-command-sent"))) ++ byte ',' ::
    (memberText (text "ts") (quoted (escape (isoNow clock))) ++ byte ',' :: fromMember operatorUser))

include hne hlen hnul in
theorem texts_sent : (sent clock operatorUser txSource summary).onWire.map (fun s =>
      memberText s.key ((sent clock operatorUser txSource summary).valueText s)) =
    memberText (text "t") (quoted (escape (text "tx-command-sent"))) ::
      (sentFields.filter fun f => sentText clock operatorUser txSource summary f != []).map fun f =>
        memberText (Slot.str f).key (quoted (escape (sentText clock operatorUser txSource summary f))) := by
  have htype : (sent clock operatorUser txSource summary).valueText .type =
      quoted (escape (text "tx-command-sent")) := by
    rw [Event.valueText, type_sent]
    rfl
  rw [onWire_sent clock operatorUser txSource hne hlen hnul, List.map_cons, List.map_map, htype]
  refine congrArg _ (List.map_congr_left fun f _ => ?_)
  rw [Function.comp_apply, Event.valueText, strText_sent clock operatorUser txSource hne hlen hnul]

include hne in
theorem filter_sentFields : (sentFields.filter fun f => sentText clock operatorUser txSource summary f != []) =
    .ts :: ((if senderName operatorUser = [] then [] else [.fromName]) ++ .ascii ::
      if cstr (snprintf 16 txSource) = [] then [] else [.txOrigin]) := by
  have hiso : (isoNow clock != []) = true := bne_iff_ne.mpr (isoNow_ne_nil clock)
  have hsummary : (summary != []) = true := bne_iff_ne.mpr hne
  unfold sentFields
  split_ifs with hname horg horg
  · simp only [List.filter, sentText, hiso, hsummary, hname, horg, bne_self_eq_false, List.nil_append]
  · have horg' := bne_iff_ne.mpr horg
    simp only [List.filter, sentText, hiso, hsummary, hname, horg', bne_self_eq_false, List.nil_append]
  · have hname' := bne_iff_ne.mpr hname
    simp only [List.filter, sentText, hiso, hsummary, hname', horg, bne_self_eq_false, List.singleton_append]
  · have hname' := bne_iff_ne.mpr hname
    have horg' := bne_iff_ne.mpr horg
    simp only [List.filter, sentText, hiso, hsummary, hname', horg', bne_self_eq_false, List.singleton_append]

include hne hlen hnul in
theorem line_sent : (sent clock operatorUser txSource summary).line =
    lineHead clock operatorUser ++ (quoted (text "ascii") ++ byte ':' :: byte '"' ::
      (escape summary ++ byte '"' :: lineTail txSource)) := by
  rw [Event.line, Event.body, texts_sent clock operatorUser txSource hne hlen hnul,
    filter_sentFields clock operatorUser txSource hne]
  unfold lineHead lineTail fromMember
  split_ifs with hname horg horg
  all_goals simp [joined, sentText, memberText, member, quoted]
  all_goals rfl

/-- The line fits in the 2048 bytes of `tx_log_file_append`. -/
theorem length_line_sent_le (hescape : (escape summary).length ≤ 1440) :
    (lineHead clock operatorUser ++ (quoted (text "ascii") ++ byte ':' :: byte '"' ::
      (escape summary ++ byte '"' :: lineTail txSource))).length ≤ 2048 := by
  have hcstr : ∀ n s, (cstr (snprintf n s)).length ≤ n - 1 := fun n s =>
    ((List.takeWhile_sublist _).length_le).trans (List.length_take_le (n - 1) s)
  have hkeys : (text "t").length = 1 ∧ (text "ts").length = 2 ∧ (text "from").length = 4 ∧ (text "ascii").length = 5 ∧
      (text "tx_org").length = 6 ∧ (text "\x7d\n").length = 2 ∧
      (quoted (escape (text "tx-command-sent"))).length = 17 := by decide
  have hts : (quoted (escape (isoNow clock))).length ≤ 41 := by
    have hlen := length_isoNow_le clock
    rw [escape_plain (unescaped_isoNow clock), quoted, List.length_cons, List.length_append, List.length_singleton]
    omega
  have hquoted : ∀ s n, s.length ≤ n → (quoted (escape s)).length ≤ 6 * n + 2 := by
    intro s n hs
    have hlen := length_escape_le s
    rw [quoted, List.length_cons, List.length_append, List.length_singleton]
    omega
  have hfrom : (fromMember operatorUser).length ≤ 388 := by
    have hname := hquoted (senderName operatorUser) 63 (hcstr 64 _)
    unfold fromMember
    split_ifs
    · exact Nat.zero_le _
    · rw [List.length_append, length_memberText, List.length_singleton, hkeys.2.2.1]
      omega
  have htail : (lineTail txSource).length ≤ 104 := by
    have horg := hquoted (cstr (snprintf 16 txSource)) 15 (hcstr 16 txSource)
    unfold lineTail
    rw [List.length_append, hkeys.2.2.2.2.2.1]
    split_ifs
    · exact Nat.le_add_left 2 102
    · rw [List.length_cons, length_memberText, hkeys.2.2.2.2.1]
      omega
  have hascii : (quoted (text "ascii")).length = 7 := by decide
  unfold lineHead
  simp only [List.length_append, List.length_cons, length_memberText, hkeys.1, hkeys.2.1, hkeys.2.2.2.2.2.2, hascii]
  omega

include hne hlen hnul in
/-- **The line of a burst in the log.** -/
theorem txLogLine_sent (hescape : (escape summary).length ≤ 1440) :
    txLogLine (sent clock operatorUser txSource summary) = lineHead clock operatorUser ++
      (quoted (text "ascii") ++ byte ':' :: byte '"' :: (escape summary ++ byte '"' :: lineTail txSource)) := by
  have hline := line_sent clock operatorUser txSource hne hlen hnul
  have hfit := length_line_sent_le clock operatorUser txSource hescape
  rw [← hline] at hfit ⊢
  rw [txLogLine, ssoEventEncode_eq, if_pos ⟨by decide, hfit⟩]
  exact cstr_append_nul (nul_not_mem_line _) []

end

/-! ## The summary of a burst -/

/-- The heritage of a command, as its summary shows it. -/
def note (ssoOrigin : List UInt8) : List UInt8 :=
  if ssoOrigin = [] then [] else text " (replaced '" ++ (ssoOrigin ++ text "')")

/-- The command as its summary shows it. -/
def shownCommand (req : TxRequestSlot) : List UInt8 := (req.payload ++ note req.ssoOrigin).take 249

section
variable {req : TxRequestSlot} (hhex : req.isHex = false) (hpayload : 0 ∉ req.payload) (horigin : 0 ∉ req.ssoOrigin)
  (hlen : req.payload.length ≤ 215)

include hhex hpayload hlen in
theorem burstSummary_eq : burstSummary req = text "ascii:" ++ shownCommand req := by
  have hlead : (text "ascii:").length = 6 := by decide
  have hsummary : txBurstSummarize req.payload req.isHex TxHandoff.txTextMax = text "ascii:" ++ req.payload := by
    rw [txBurstSummarize, if_pos hhex, cstr_of_not_mem hpayload, snprintf, List.take_of_length_le]
    rw [List.length_append, hlead, TxHandoff.txTextMax]
    omega
  rw [burstSummary, hsummary, shownCommand, note]
  split_ifs with hnil
  · rw [List.append_nil, List.take_of_length_le (by omega)]
  · have hassoc : text "ascii:" ++ req.payload ++ text " (replaced '" ++ req.ssoOrigin ++ text "')" =
        text "ascii:" ++ (req.payload ++ (text " (replaced '" ++ (req.ssoOrigin ++ text "')"))) := by
      simp only [List.append_assoc]
    rw [hassoc, snprintf, TxHandoff.txTextMax, List.take_append, List.take_of_length_le (by rw [hlead]; omega), hlead]

include hpayload horigin in
theorem nul_not_mem_shownCommand : 0 ∉ shownCommand req := by
  have hmarks : 0 ∉ text " (replaced '" ∧ 0 ∉ text "')" := by decide
  intro h
  rcases List.mem_append.mp (List.mem_of_mem_take h) with h | h
  · exact hpayload h
  · unfold note at h
    split_ifs at h
    · exact absurd h List.not_mem_nil
    · rcases List.mem_append.mp h with h | h
      · exact hmarks.1 h
      · rcases List.mem_append.mp h with h | h
        · exact horigin h
        · exact hmarks.2 h

include hpayload horigin in
theorem summary_sound : text "ascii:" ++ shownCommand req ≠ [] ∧
    (text "ascii:" ++ shownCommand req).length < TxHandoff.txTextMax ∧ 0 ∉ text "ascii:" ++ shownCommand req := by
  have hlead : (text "ascii:").length = 6 ∧ text "ascii:" ≠ [] ∧ 0 ∉ text "ascii:" := by decide
  have hcut : (shownCommand req).length ≤ 249 := List.length_take_le 249 _
  refine ⟨List.append_ne_nil_of_left_ne_nil hlead.2.1 _, ?_, ?_⟩
  · rw [List.length_append, hlead.1, TxHandoff.txTextMax]
    omega
  · rw [List.mem_append, not_or]
    exact ⟨hlead.2.2, nul_not_mem_shownCommand hpayload horigin⟩

include hlen in
theorem length_escape_summary : (escape (text "ascii:" ++ shownCommand req)).length ≤ 1440 := by
  have happend : ∀ s t : List UInt8, escape (s ++ t) = escape s ++ escape t := fun _ _ => List.flatMap_append
  have hmarks : (escape (text "ascii:")).length = 6 ∧ (escape (text " (replaced '")).length = 12 ∧
      (text " (replaced '").length = 12 := by decide
  have hpayload := length_escape_le req.payload
  have hshown : (escape (shownCommand req)).length ≤ 1434 := by
    unfold shownCommand note
    rw [List.take_append, List.take_of_length_le (by omega), happend, List.length_append]
    split_ifs
    · rw [List.take_nil]
      show _ + 0 ≤ 1434
      omega
    · have hrest := length_escape_le ((req.ssoOrigin ++ text "')").take (249 - req.payload.length - 12))
      have hcut := List.length_take_le (249 - req.payload.length - 12) (req.ssoOrigin ++ text "')")
      rw [List.take_append, List.take_of_length_le (by rw [hmarks.2.2]; omega), happend, List.length_append, hmarks.2.1,
        hmarks.2.2]
      omega
  rw [happend, List.length_append, hmarks.1]
  omega

end

/-! ## The import of the line -/

/-- The name of the operator ends in a quote, or starts, in front of `ascii`: `json_str` takes its end for the key. -/
def Misread (operatorUser : Option (List UInt8)) : Prop :=
  byte '"' :: text "ascii" <:+ byte '"' :: senderName operatorUser

instance (operatorUser : Option (List UInt8)) : Decidable (Misread operatorUser) :=
  inferInstanceAs (Decidable (_ <:+ _))

theorem unescaped_ascii : ∀ c ∈ text "ascii", Unescaped c := by
  unfold Unescaped
  decide

theorem memberText_quoted (k v : List UInt8) : memberText k (quoted v) = quoted k ++ byte ':' :: quoted v := by
  simp [memberText, member]

section
variable (clock : AuditLog.Timespec) (operatorUser : Option (List UInt8)) (w : List UInt8)

/-- The search passes over a member whose key and value do not end in the key. -/
theorem strstr_member {k v : List UInt8} (hk : ∀ c ∈ k, Unescaped c) (hkey : ¬ byte '"' :: text "ascii" <:+ byte '"' :: k)
    (hv : ¬ byte '"' :: text "ascii" <:+ byte '"' :: v) :
    strstr (quoted (text "ascii")) (memberText k (quoted (escape v)) ++ byte ',' :: w) =
      strstr (quoted (text "ascii")) w := by
  rw [memberText_quoted, List.append_assoc, List.cons_append, ← escape_plain hk,
    strstr_string unescaped_ascii hkey (by decide) (by decide), strstr_string unescaped_ascii hv (by decide) (by decide)]

theorem strstr_fromMember : strstr (quoted (text "ascii")) (fromMember operatorUser ++ w) =
    if Misread operatorUser then some (quoted (text "ascii") ++ byte ',' :: w)
    else strstr (quoted (text "ascii")) w := by
  have hkey : ∀ c ∈ text "from", Unescaped c := by
    unfold Unescaped
    decide
  have hfrom : ¬ byte '"' :: text "ascii" <:+ byte '"' :: text "from" := by decide
  unfold fromMember
  split_ifs with hname hmis hmis
  · rw [Misread, hname] at hmis
    exact absurd hmis (by decide)
  · rfl
  · rw [memberText_quoted, List.append_assoc, List.append_assoc, List.cons_append, ← escape_plain hkey,
      strstr_string unescaped_ascii hfrom (by decide) (by decide), strstr_string_found unescaped_ascii hmis]
    rfl
  · rw [List.append_assoc]
    exact strstr_member w hkey hfrom hmis

/-- **The key is found** in front of the summary, or at the end of the operator's name. -/
theorem strstr_lineHead : strstr (quoted (text "ascii")) (lineHead clock operatorUser ++ w) =
    if Misread operatorUser then some (quoted (text "ascii") ++ byte ',' :: w)
    else strstr (quoted (text "ascii")) w := by
  have hbrace : byte '"' ∉ [byte '{'] := by decide
  have hkeys : ∀ k ∈ [text "t", text "ts"], ∀ c ∈ k, Unescaped c := by
    unfold Unescaped
    decide
  simp only [List.forall_mem_cons, List.not_mem_nil, false_imp_iff, implies_true, and_true] at hkeys
  have hiso : ¬ byte '"' :: text "ascii" <:+ byte '"' :: isoNow clock := by
    intro h
    have hmem : byte 'a' ∈ byte '"' :: isoNow clock := h.subset (by decide)
    rcases List.mem_cons.mp hmem with h | h
    · exact absurd h (by decide)
    · exact absurd (mem_isoNow clock _ h) (by decide)
  have hline : lineHead clock operatorUser ++ w = [byte '{'] ++
      (memberText (text "t") (quoted (escape (text "tx-command-sent"))) ++ byte ',' ::
        (memberText (text "ts") (quoted (escape (isoNow clock))) ++ byte ',' :: (fromMember operatorUser ++ w))) := by
    simp [lineHead]
  rw [hline, quoted, strstr_skip_of_not_mem hbrace, ← quoted, strstr_member _ hkeys.1 (by decide) (by decide),
    strstr_member _ hkeys.2 (by decide) hiso, strstr_fromMember]

end

section
variable {clock : AuditLog.Timespec} {operatorUser : Option (List UInt8)} {req : TxRequestSlot}
  (hhex : req.isHex = false) (hpayload : 0 ∉ req.payload) (horigin : 0 ∉ req.ssoOrigin)
  (hlen : req.payload.length ≤ 215)
include hhex hpayload horigin hlen

theorem sentLine_eq : sentLine clock operatorUser req = lineHead clock operatorUser ++
    (quoted (text "ascii") ++ byte ':' :: byte '"' ::
      (escape (text "ascii:" ++ shownCommand req) ++ byte '"' :: lineTail req.txSource)) := by
  obtain ⟨hne, hfits, hnul⟩ := summary_sound hpayload horigin
  rw [sentLine, burstSummary_eq hhex hpayload hlen]
  exact txLogLine_sent clock operatorUser req.txSource hne hfits hnul (length_escape_summary hlen)

/-- The `ascii` of the line, as the importer reads it. -/
theorem jsonStr_sentLine : jsonStr (sentLine clock operatorUser req) (text "ascii") 512 =
    if Misread operatorUser then none else some (text "ascii:" ++ (respelled (shownCommand req)).take 505) := by
  have hshort : (quoted (text "ascii")).length < 32 := by decide
  have hcomma : isBlank (byte ',') = false ∧ byte ',' ≠ byte ':' := by decide
  have hlead : respelled (text "ascii:") = text "ascii:" ∧ (text "ascii:").length = 6 := by decide
  have hfound := strstr_lineHead clock operatorUser (quoted (text "ascii") ++ byte ':' :: byte '"' ::
    (escape (text "ascii:" ++ shownCommand req) ++ byte '"' :: lineTail req.txSource))
  rw [← sentLine_eq hhex hpayload horigin hlen] at hfound
  split_ifs with hmis
  · rw [if_pos hmis] at hfound
    exact jsonStr_none hcomma.1 hcomma.2 hfound 512
  · rw [if_neg hmis, strstr_of_isPrefix (by decide) (List.prefix_append _ _)] at hfound
    rw [jsonStr_of_strstr hshort hfound, respelled_append, hlead.1, List.take_append, hlead.2,
      List.take_of_length_le (by rw [hlead.2]; decide)]

/-- The file is read as one line. -/
theorem fgets_sentLine : fgets 4096 (sentLine clock operatorUser req) = [sentLine clock operatorUser req] := by
  obtain ⟨hne, hfits, hnul⟩ := summary_sound hpayload horigin
  have heq : sentLine clock operatorUser req =
      (sent clock operatorUser req.txSource (text "ascii:" ++ shownCommand req)).line := by
    rw [sentLine_eq hhex hpayload horigin hlen, line_sent clock operatorUser req.txSource hne hfits hnul]
  have hroster : FromSetRoster (sent clock operatorUser req.txSource (text "ascii:" ++ shownCommand req)).rosterJson := by
    unfold sent txEvent
    dsimp only
    split_ifs <;> exact .cleared
  have hshort : (sentLine clock operatorUser req).length ≤ 2048 := by
    rw [sentLine_eq hhex hpayload horigin hlen]
    exact length_line_sent_le clock operatorUser req.txSource (length_escape_summary hlen)
  obtain ⟨body, hbody, hline⟩ := line_eq hroster
  rw [← heq] at hline
  have hbytes : (0 : UInt8) ∉ sentLine clock operatorUser req := heq ▸ nul_not_mem_line _
  rw [fgets_of_not_mem (by decide) hbytes]
  refine Lines.readLines_short (by decide) ?_ ?_ (hshort.trans (by decide))
  · rw [hline]
    refine Lines.isLine_append_terminator fun x hx => beq_eq_false_iff_ne.mpr ?_
    rintro rfl
    exact hbody hx
  · rw [hline]
    exact List.append_ne_nil_of_right_ne_nil _ (List.cons_ne_nil _ _)

theorem importLine_sentLine (tool run : List UInt8) :
    importLine tool run (sentLine clock operatorUser req) =
      if Misread operatorUser then none
      else (directiveMs "@tssent=" ((respelled (shownCommand req)).take 505)).map fun tsSent =>
        { tsSentMs := tsSent
          tsexecMs := (directiveMs "@tsexec=" ((respelled (shownCommand req)).take 505)).getD (-1)
          commandText := (respelled (shownCommand req)).take 505
          txFreqHz := 0
          txGainDb := none
          sourceTool := tool
          sourceRun := run
          tsTransmitted := (jsonStr (sentLine clock operatorUser req) (text "ts") 40).getD (text "(imported)") } := by
  have htag : ∃ p, strstr (text "\"t\":\"tx-command-sent\"") (sentLine clock operatorUser req) = some p := by
    have hbrace : byte '"' ∉ [byte '{'] := by decide
    have hmember : memberText (text "t") (quoted (escape (text "tx-command-sent"))) =
        text "\"t\":\"tx-command-sent\"" := by decide
    have hhead : ∀ w, lineHead clock operatorUser ++ w = [byte '{'] ++
        (text "\"t\":\"tx-command-sent\"" ++ (byte ',' ::
          (memberText (text "ts") (quoted (escape (isoNow clock))) ++ byte ',' :: (fromMember operatorUser ++ w)))) := by
      intro w
      rw [← hmember]
      simp [lineHead]
    rw [sentLine_eq hhex hpayload horigin hlen, hhead]
    exact ⟨_, (strstr_skip_of_not_mem hbrace _ _).trans
      (strstr_of_isPrefix (List.cons_ne_nil _ _) (List.prefix_append _ _))⟩
  obtain ⟨p, hp⟩ := htag
  unfold importLine
  rw [hp, jsonStr_sentLine hhex hpayload horigin hlen]
  split_ifs with hmis
  · rfl
  · have hcmd : (text "ascii:" ++ (respelled (shownCommand req)).take 505).drop 6 =
        (respelled (shownCommand req)).take 505 := rfl
    have hlead := List.prefix_append (text "ascii:") ((respelled (shownCommand req)).take 505)
    simp only [Option.bind_eq_bind, Option.bind_some, if_pos hlead, hcmd]
    cases directiveMs "@tssent=" ((respelled (shownCommand req)).take 505) <;> rfl

end

/-! ## Agreement -/

/-- `ts_sent_ms`, `tsexec_ms` and `command_text`. -/
def SentTcmdRow.entry (row : SentTcmdRow) : ℤ × Option ℤ × List UInt8 :=
  (row.tsSentMs, row.tsexecMs, row.commandText)

/-- What is stored of a command. -/
def stored (cmd : List UInt8) : List (ℤ × Option ℤ × List UInt8) :=
  match directiveMs "@tssent=" cmd with
  | none => []
  | some tsSent =>
      let tsexec := (directiveMs "@tsexec=" cmd).getD (-1)
      [(tsSent, if 0 ≤ tsexec then some tsexec else none, cmd)]

theorem stored_eq_nil_iff (cmd : List UInt8) : stored cmd = [] ↔ agendaParseDirectiveMs (text "@tssent=") cmd = none := by
  unfold stored directiveMs
  cases agendaParseDirectiveMs (text "@tssent=") cmd with
  | none => exact iff_of_true rfl rfl
  | some number => exact iff_of_false (List.cons_ne_nil _ _) (Option.some_ne_none number)

/-- A command that is stored is known from its text. -/
theorem stored_inj {cmd cmd' : List UInt8} (hne : stored cmd ≠ []) (h : stored cmd' = stored cmd) : cmd' = cmd := by
  unfold stored at h hne
  cases hcmd : directiveMs "@tssent=" cmd with
  | none =>
      rw [hcmd] at hne
      exact absurd rfl hne
  | some tsSent =>
      cases hcmd' : directiveMs "@tssent=" cmd' with
      | none =>
          rw [hcmd, hcmd'] at h
          exact absurd h.symm (List.cons_ne_nil _ _)
      | some tsSent' =>
          rw [hcmd, hcmd'] at h
          exact (Prod.mk.inj (Prod.mk.inj (List.cons.inj h).1).2).2

theorem packetDbInsertSentTcmd_nil (r : SentTcmdRecord) : packetDbInsertSentTcmd [] r = [r.toRow] := by
  rw [packetDbInsertSentTcmd, if_neg]
  · rfl
  · rintro ⟨row, hrow, -⟩
    exact List.not_mem_nil hrow

section
variable {clock : AuditLog.Timespec} {operatorUser : Option (List UInt8)} {req : TxRequestSlot}
  (hhex : req.isHex = false) (hpayload : 0 ∉ req.payload) (horigin : 0 ∉ req.ssoOrigin)
  (hlen : req.payload.length ≤ 215)

include hhex hpayload hlen in
theorem live_eq (session : Session) :
    (workerRecordSentTcmd session req []).map SentTcmdRow.entry = stored req.payload := by
  unfold workerRecordSentTcmd
  have hcmd : cstr (req.payload.take (payloadCap - 1)) = req.payload := by
    rw [List.take_of_length_le (by rw [payloadCap]; omega), cstr_of_not_mem hpayload]
  rw [hcmd, hhex]
  unfold stored
  by_cases hnil : req.payload = []
  · rw [if_pos (.inr hnil), hnil]
    rfl
  · rw [if_neg (not_or.mpr ⟨Bool.false_ne_true, hnil⟩)]
    dsimp only
    cases directiveMs "@tssent=" req.payload with
    | none => rfl
    | some tsSent =>
        dsimp only
        rw [packetDbInsertSentTcmd_nil]
        rfl

include hhex hpayload horigin hlen in
theorem imported_eq (path tool : List UInt8) :
    (importFile path tool (sentLine clock operatorUser req) []).1.map SentTcmdRow.entry =
      if Misread operatorUser then [] else stored ((respelled (shownCommand req)).take 505) := by
  rw [importFile, fgets_sentLine hhex hpayload horigin hlen, List.foldl_cons, List.foldl_nil,
    importLine_sentLine hhex hpayload horigin hlen]
  unfold stored
  split_ifs with hmis
  · rfl
  · cases directiveMs "@tssent=" ((respelled (shownCommand req)).take 505) with
    | none => rfl
    | some tsSent =>
        dsimp only [Option.map_some]
        rw [packetDbInsertSentTcmd_nil]
        rfl

end

theorem respelled_eq_iff (s : List UInt8) : respelled s = s ↔ ∀ c ∈ s, Plain c := by
  refine ⟨fun h => ?_, respelled_plain⟩
  induction s with
  | nil => exact fun c hc => absurd hc List.not_mem_nil
  | cons c s ih =>
      have hru : ∀ b ∈ text "ru", Plain b := by decide
      have hc : Plain c := by
        by_contra hc
        obtain ⟨b, t, heq, hb, -⟩ := respell_control hc
        rw [respelled_cons, heq] at h
        exact hc ((List.cons.inj h).1 ▸ hru b hb)
      rw [respelled_cons, respell_plain hc] at h
      exact List.forall_mem_cons.mpr ⟨hc, ih (List.cons.inj h).2⟩

theorem length_le_respelled (s : List UInt8) : s.length ≤ (respelled s).length := by
  induction s with
  | nil => exact le_rfl
  | cons c s ih =>
      have hpos := length_respell_pos c
      rw [respelled_cons, List.length_append, List.length_cons]
      omega

/-- **The text that is read back** is the command, if it has no heritage and every byte of it comes out as it is. -/
theorem take_respelled_eq_iff {req : TxRequestSlot} (hlen : req.payload.length ≤ 215) :
    (respelled (shownCommand req)).take 505 = req.payload ↔ req.ssoOrigin = [] ∧ ∀ c ∈ req.payload, Plain c := by
  constructor
  · intro h
    have hle := length_le_respelled (shownCommand req)
    have hcut : (respelled (shownCommand req)).length = req.payload.length := by
      have hlength := congrArg List.length h
      rw [List.length_take] at hlength
      omega
    have hshort : (shownCommand req).length = min 249 (req.payload.length + (note req.ssoOrigin).length) := by
      rw [shownCommand, List.length_take, List.length_append]
    have hnote : (note req.ssoOrigin).length = 0 := by omega
    have horigin : req.ssoOrigin = [] := by
      by_contra hne
      rw [note, if_neg hne] at hnote
      exact absurd (List.length_eq_zero_iff.mp hnote) (List.append_ne_nil_of_left_ne_nil (by decide) _)
    have hshown : shownCommand req = req.payload := by
      rw [shownCommand, List.length_eq_zero_iff.mp hnote, List.append_nil, List.take_of_length_le (by omega)]
    rw [hshown] at h hcut
    rw [List.take_of_length_le (by omega)] at h
    exact ⟨horigin, (respelled_eq_iff _).mp h⟩
  · rintro ⟨horigin, hplain⟩
    have hshown : shownCommand req = req.payload := by
      rw [shownCommand, note, if_pos horigin, List.append_nil, List.take_of_length_le (by omega)]
    rw [hshown, respelled_plain hplain, List.take_of_length_le (by omega)]

/-- The file of one line and the live record store the same in empty tables. -/
def Agrees (session : Session) (clock : AuditLog.Timespec) (operatorUser : Option (List UInt8)) (req : TxRequestSlot)
    (path tool : List UInt8) : Prop :=
  (importFile path tool (sentLine clock operatorUser req) []).1.map SentTcmdRow.entry =
    (workerRecordSentTcmd session req []).map SentTcmdRow.entry

/-- **The import and the live record.** They agree on a command with a directive exactly when the command has no
heritage, none of its bytes is a control byte other than line feed and tab, and the name of the operator does not end
in the key; and on a command without one exactly when no directive is read from its heritage either, or the name ends
in the key. -/
theorem import_agrees_iff (session : Session) (clock : AuditLog.Timespec) (operatorUser : Option (List UInt8))
    (path tool : List UInt8) {req : TxRequestSlot} (hhex : req.isHex = false) (hpayload : 0 ∉ req.payload)
    (horigin : 0 ∉ req.ssoOrigin) (hlen : req.payload.length ≤ 215) :
    Agrees session clock operatorUser req path tool ↔
      if agendaParseDirectiveMs (text "@tssent=") req.payload = none then
        Misread operatorUser ∨ agendaParseDirectiveMs (text "@tssent=") (fitting 505 (shownCommand req)) = none
      else ¬ Misread operatorUser ∧ req.ssoOrigin = [] ∧ ∀ c ∈ req.payload, Plain c := by
  have hkey : ∀ c ∈ text "@tssent=", Plain c ∧ c ∉ text "ru" := by decide
  have hread : stored ((respelled (shownCommand req)).take 505) = [] ↔
      agendaParseDirectiveMs (text "@tssent=") (fitting 505 (shownCommand req)) = none := by
    obtain ⟨tail, htail, heq⟩ := take_respelled 505 (shownCommand req)
    rw [stored_eq_nil_iff, heq, agendaParseDirectiveMs_respelled hkey (by decide) htail]
  rw [Agrees, live_eq hhex hpayload hlen, imported_eq hhex hpayload horigin hlen]
  split_ifs with hmis hnone hnone
  · rw [(stored_eq_nil_iff _).mpr hnone]
    exact iff_of_true rfl (.inl hmis)
  · refine iff_of_false (fun h => hnone ((stored_eq_nil_iff _).mp h.symm)) fun h => h.1 hmis
  · rw [(stored_eq_nil_iff _).mpr hnone, hread]
    exact (or_iff_right hmis).symm
  · have hne := mt (stored_eq_nil_iff _).mp hnone
    rw [← take_respelled_eq_iff hlen]
    constructor
    · exact fun h => ⟨hmis, stored_inj hne h⟩
    · exact fun h => congrArg stored h.2

/-- A command as it is typed. -/
theorem import_agrees_hello :
    Agrees ⟨436150000, none, text "20250612", text "2025-06-12T18:23:00Z"⟩ ⟨1749752580, 0⟩ (some (text "operator"))
      ⟨text "CTS1+hello_world()@tssent=1749752580000@tsexec=1749752590000!", false, ⟨2, 10, 1, 7, 16, 0⟩, 1, [],
        text "manual send", []⟩ (text "/data/20250612/tx.log") (text "tcmd_import") :=
  (import_agrees_iff _ _ _ _ _ rfl (by decide) (by decide) (by decide)).mpr (by decide)

/-- The command of the manual, which stands for `SSO+sync_sat_time_to_ground()!`: the text that is imported has a note
behind it. -/
theorem import_disagrees_sync :
    ¬ ∀ (session : Session) (clock : AuditLog.Timespec) (operatorUser : Option (List UInt8)) (path tool : List UInt8)
      (req : TxRequestSlot), req.isHex = false → 0 ∉ req.payload → 0 ∉ req.ssoOrigin → req.payload.length ≤ 215 →
      Agrees session clock operatorUser req path tool := by
  intro h
  have hpayload : 0 ∉ text "CTS1+set_system_time(1749752645623)@tssent=1749752580000!" ∧
      (text "CTS1+set_system_time(1749752645623)@tssent=1749752580000!").length ≤ 215 := by decide
  have horigin : 0 ∉ text "SSO+sync_sat_time_to_ground()!" := by decide
  have hagree := h ⟨436150000, none, text "20250612", text "2025-06-12T18:23:00Z"⟩ ⟨1749752580, 0⟩
    (some (text "operator")) (text "/data/20250612/tx.log") (text "tcmd_import")
    ⟨text "CTS1+set_system_time(1749752645623)@tssent=1749752580000!", false, ⟨2, 10, 1, 7, 16, 0⟩, 1,
      text "SSO+sync_sat_time_to_ground()!", text "auto-cmd (file)", []⟩ rfl hpayload.1 horigin hpayload.2
  rw [Agrees, live_eq rfl hpayload.1 hpayload.2, imported_eq rfl hpayload.1 horigin hpayload.2] at hagree
  exact absurd hagree (by decide +kernel)

end SimpleSatOps.TcmdImport
