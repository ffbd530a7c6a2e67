import SimpleSatOps.Ipc.Transport.Server

/-!
# What a client receives

* `stream`, `Prompt` : the bytes of the lines that were queued; no `send` after a line that could not be queued;
* `Outbound` : the invariant of the send side;
* `stream_intact` : a client receives whole lines in order, and after such a line none that was queued later;
* `stream_intact_resumes` : a `send` to a client that is to be dropped is queued all the same.
-/

namespace SimpleSatOps.Transport
open Ipc

/-- The bytes of the lines that were queued, in order. -/
def stream (es : List Entry) : List UInt8 := es.flatMap fun e => if e.fate = .queued then e.line else []

/-- After a line that could not be queued there are only broadcasts. -/
def Prompt (es : List Entry) : Prop :=
  ∀ pre e post, es = pre ++ e :: post → e.fate = .refused → ∀ e' ∈ post, e'.via = .broadcast

theorem stream_append (es es' : List Entry) : stream (es ++ es') = stream es ++ stream es' := List.flatMap_append

namespace Link
variable {ω κ : Type} {l l' : Link ω}

/-- The invariant of the send side. -/
structure Outbound (l : Link ω) : Prop where
  whole : l.sock.received ++ l.writeBuf = stream l.sent
  lossy : ∀ e ∈ l.sent, e.via = .sendLossy → e.fate ≠ .refused
  dead : ∀ e ∈ l.sent, e.fate = .refused → l.dead = true
  after : ∀ pre e post, l.sent = pre ++ e :: post → e.fate = .refused → ∀ e' ∈ post, e'.via ≠ .broadcast

/-- The send side is left alone, but for a drop. -/
structure SameSend (l l' : Link ω) : Prop where
  received : l'.sock.received = l.sock.received
  writeBuf : l'.writeBuf = l.writeBuf
  sent : l'.sent = l.sent
  dead : l.dead = true → l'.dead = true

theorem SameSend.refl (l : Link ω) : SameSend l l := ⟨rfl, rfl, rfl, id⟩

theorem SameSend.drop (l : Link ω) (c : Cause) : SameSend l (l.drop c) := ⟨rfl, rfl, rfl, fun _ => dead_drop l c⟩

namespace Outbound

theorem new (own : ω) (handler : Bool) (k : Sock) (h : k.received = []) : Outbound (Link.new own handler k) where
  whole := by
    show k.received ++ [] = []
    rw [h]
    rfl
  lossy _ hm := absurd hm List.not_mem_nil
  dead _ hm := absurd hm List.not_mem_nil
  after pre e post heq := absurd heq.symm (List.append_ne_nil_of_right_ne_nil _ (List.cons_ne_nil _ _))

theorem same (h : Outbound l) (hs : SameSend l l') : Outbound l' where
  whole := by rw [hs.received, hs.writeBuf, hs.sent, h.whole]
  lossy := by rw [hs.sent]; exact h.lossy
  dead e hm hf := hs.dead (h.dead e (hs.sent ▸ hm) hf)
  after := by rw [hs.sent]; exact h.after

theorem drainWrite (ws : List WriteResult) (h : Outbound l) : Outbound (l.drainWrite ws) := by
  induction ws generalizing l with
  | nil => exact h
  | cons w ws ih =>
      unfold Link.drainWrite
      split_ifs
      · exact h
      · cases w with
        | blocked => exact h
        | failed => exact h.same (.drop l _)
        | took n =>
            dsimp only
            split_ifs
            · exact h.same (.drop l _)
            · refine ih ⟨?_, h.lossy, h.dead, h.after⟩
              show (l.sock.received ++ l.writeBuf.take _) ++ l.writeBuf.drop _ = stream l.sent
              rw [List.append_assoc, List.take_append_drop, h.whole]

/-- One entry more, with what it adds to the buffer. -/
theorem concat (h : Outbound l) {e : Entry} (hsent : l'.sent = l.sent ++ [e])
    (hwhole : l'.sock.received ++ l'.writeBuf = l.sock.received ++ l.writeBuf ++ stream [e])
    (hlossy : e.via = .sendLossy → e.fate ≠ .refused) (hdead : l.dead = true ∨ e.fate = .refused → l'.dead = true)
    (hvia : l.dead = true → e.via ≠ .broadcast) : Outbound l' where
  whole := by rw [hsent, stream_append, hwhole, h.whole]
  lossy e' hm := by
    rw [hsent] at hm
    rcases List.mem_append.mp hm with hm | hm
    · exact h.lossy e' hm
    · exact List.mem_singleton.mp hm ▸ hlossy
  dead e' hm hf := by
    rw [hsent] at hm
    rcases List.mem_append.mp hm with hm | hm
    · exact hdead (.inl (h.dead e' hm hf))
    · exact hdead (.inr (List.mem_singleton.mp hm ▸ hf))
  after pre e₀ post heq hf := by
    rw [hsent] at heq
    rcases split_concat heq with ⟨post', hes, rfl⟩ | ⟨-, -, rfl⟩
    · intro e' hm
      rcases List.mem_append.mp hm with hm | hm
      · exact h.after pre e₀ post' hes hf e' hm
      · have hmem : e₀ ∈ l.sent := hes ▸ List.mem_append_right pre List.mem_cons_self
        exact List.mem_singleton.mp hm ▸ hvia (h.dead e₀ hmem hf)
    · exact fun _ hm => absurd hm List.not_mem_nil

theorem append (h : Outbound l) {via : Via} (line : List UInt8) (hvia : l.dead = true → via ≠ .broadcast) :
    Outbound (l.append via line) :=
  h.concat (e := ⟨via, cstr line, .queued⟩) rfl (by simp [Link.append, stream]) (fun _ => nofun)
    (fun hd => hd.elim id nofun) hvia

theorem refuse (h : Outbound l) {via : Via} (line : List UInt8) (hlossy : via ≠ .sendLossy)
    (hvia : l.dead = true → via ≠ .broadcast) : Outbound (l.refuse via line) :=
  h.concat (e := ⟨via, cstr line, .refused⟩) rfl (by simp [Link.refuse, Link.drop, stream])
    (fun hl => absurd hl hlossy) (fun _ => dead_drop l .overflow) hvia

theorem queue (h : Outbound l) (via : Via) (line : List UInt8) (hlossy : via ≠ .sendLossy)
    (hvia : l.dead = true → via ≠ .broadcast) : Outbound (l.queue via line) := by
  unfold Link.queue
  split_ifs
  · exact h.append line hvia
  · exact h.refuse line hlossy hvia

theorem queueLossy (h : Outbound l) (line : List UInt8) : Outbound (l.queueLossy line) := by
  unfold Link.queueLossy
  split_ifs
  · exact h.append line fun _ => nofun
  · exact h.concat (e := ⟨.sendLossy, cstr line, .skipped⟩) rfl (by simp [stream]) (fun _ => nofun)
      (fun hd => hd.elim id nofun) fun _ => nofun

/-- Nothing after a refusal was queued, if there were only broadcasts. -/
theorem received_prefix (h : Outbound l) (hprompt : Prompt l.sent) {pre post : List Entry} {e : Entry}
    (heq : l.sent = pre ++ e :: post) (hf : e.fate = .refused) : l.sock.received <+: stream pre := by
  have hnil : post = [] := List.eq_nil_iff_forall_not_mem.mpr fun e' hm =>
    h.after pre e post heq hf e' hm (hprompt pre e post heq hf e' hm)
  have hstream : stream l.sent = stream pre := by
    rw [heq, hnil, stream_append]
    simp [stream, hf]
  exact ⟨l.writeBuf, h.whole.trans hstream⟩

end Outbound

end Link

/-! ## The server -/

theorem outbound_run {l : Link SlotInfo} (h : l.Outbound) (c : Call) : (c.run l).Outbound := by
  cases c with
  | broadcast line ws =>
      show (if l.dead then l else (l.queue .broadcast line).drainWrite ws).Outbound
      split_ifs with hdead
      · exact h
      · exact (h.queue .broadcast line nofun fun hd => absurd hd hdead).drainWrite ws
  | send line ws => exact (h.queue .send line nofun fun _ => nofun).drainWrite ws
  | sendLossy line ws ws' => exact ((h.drainWrite ws).queueLossy line).drainWrite ws'

theorem outbound_slotDispatchLine (line : List UInt8) (app : List Call) {l : Link SlotInfo} (h : l.Outbound) :
    (slotDispatchLine line app l).Outbound := by
  have hlog : (l.log line).Outbound := h.same ⟨rfl, rfl, rfl, id⟩
  unfold slotDispatchLine
  cases decodeLine line with
  | none => exact hlog
  | some evt =>
      have hcalls : ∀ (app : List Call) {l : Link SlotInfo}, l.Outbound →
          (app.foldl (fun l (c : Call) => c.run l) l).Outbound := by
        intro app
        induction app with
        | nil => exact fun h => h
        | cons c app ih => exact fun h => ih (outbound_run h c)
      have hown : ∀ o, Link.Outbound { l.log line with own := o } := fun o => hlog.same ⟨rfl, rfl, rfl, id⟩
      dsimp only
      by_cases hh : (l.log line).handler = true
      · rw [if_pos hh]
        exact hcalls app (hown _)
      · rw [if_neg hh]
        exact hown _

theorem outbound_serveSlot {l : Link SlotInfo} (h : l.Outbound) (rev : Revents) (ts : List (ReadTurn Call))
    (ws : List WriteResult) : (serveSlot rev ts ws l).Outbound := by
  have hmark : (markHangup rev l).Outbound := by
    unfold markHangup
    split_ifs
    · exact h.same (.drop l _)
    · exact h
  have hread : (slotRead rev ts (markHangup rev l)).Outbound := by
    unfold slotRead slotDrainRead Link.drainRead
    split_ifs
    · exact Link.readLoop_induct (fun line app _ h => outbound_slotDispatchLine line app h)
        (fun l c h => h.same (.drop l c)) (fun _ _ _ h hk => h.same ⟨hk, rfl, rfl, id⟩) _ ts _ hmark
    · exact hmark
  unfold serveSlot slotWrite
  split_ifs
  · exact hread.drainWrite ws
  · exact hread

theorem outbound_conn_step {c c' : Conn} {a : Action} (h : c.link.Outbound) (hs : c.step a = some c') :
    c'.link.Outbound := by
  cases connStep_of hs with
  | peer bs close => exact h.same ⟨c.link.sock.received_arrive bs close, rfl, rfl, id⟩
  | call x hphase => exact outbound_run h x
  | poll writable err hphase => exact h
  | serve ts ws rev hphase => exact outbound_serveSlot h rev ts ws
  | prune hphase => exact h

/-- A client receives the lines that were queued to it, whole and in order; a lossy line is queued or left out; and
as long as nothing is sent to a client for which a line could not be queued, it receives no line queued later. -/
theorem stream_intact {id : ℕ} {handler : Bool} {s : List UInt8} {closed : Bool} {c : Conn}
    (h : Reaches Conn.step Free (Conn.accepted id handler s closed) c) :
    c.link.sock.received <+: stream c.link.sent ∧
      (∀ e ∈ c.link.sent, e.via = .sendLossy → e.fate = .queued ∨ e.fate = .skipped) ∧
      (Prompt c.link.sent → ∀ pre e post, c.link.sent = pre ++ e :: post → e.fate = .refused →
        c.link.sock.received <+: stream pre) := by
  have hinv : c.link.Outbound :=
    h.invariant (P := fun c => c.link.Outbound) (.new _ _ _ rfl) fun _ _ _ ht _ hs => outbound_conn_step ht hs
  refine ⟨⟨_, hinv.whole⟩, fun e hm hvia => ?_, fun hprompt pre e post heq hf => hinv.received_prefix hprompt heq hf⟩
  have hne := hinv.lossy e hm hvia
  cases hfate : e.fate with
  | queued => exact .inl rfl
  | skipped => exact .inr rfl
  | refused => exact absurd hfate hne

/-- A broadcast to a client that takes nothing yet, and a lossy line. -/
theorem stream_intact_slow : ∃ c, Reaches Conn.step Free (Conn.accepted 1 true [] false) c ∧
    c.link.sock.received = text "a\nb" ∧ c.link.sock.received <+: stream c.link.sent := by
  have hrun : Reaches Conn.step Free (Conn.accepted 1 true [] false) _ := .of_foldlM
    [.call (.broadcast (text "a\n") []), .call (.sendLossy (text "b\n") [.took 1] [.took 2, .blocked])] rfl
  exact ⟨_, hrun, by decide +kernel, (stream_intact hrun).1⟩

/-! ## Sending to a client that is to be dropped -/

section Resumes
variable {line : List UInt8}

def sentLine (line : List UInt8) (fate : Fate) : Entry := ⟨.send, line, fate⟩

/-- A client that has taken nothing of `k` lines. -/
def pendingLink (line : List UInt8) (k : ℕ) : Link SlotInfo :=
  { (Conn.accepted 1 true [] false).link with
    writeBuf := (List.replicate k line).flatten, sent := List.replicate k (sentLine line .queued) }

theorem length_pending (hlen : line.length = 7000) (k : ℕ) : (pendingLink line k).writeBuf.length = k * 7000 := by
  show (List.replicate k line).flatten.length = _
  rw [List.length_flatten, List.map_replicate, List.sum_replicate, hlen, smul_eq_mul]

theorem hasRoom_pending (hlen : line.length = 7000) (hstr : cstr line = line) (k : ℕ) :
    (pendingLink line k).HasRoom line ↔ k < 4 := by
  unfold Link.HasRoom writeBufSize
  rw [length_pending hlen, hstr, hlen]
  omega

theorem reaches_pending (hlen : line.length = 7000) (hstr : cstr line = line) {k : ℕ} (hk : k ≤ 4) :
    Reaches Conn.step Free (Conn.accepted 1 true [] false) ⟨pendingLink line k, .idle⟩ := by
  induction k with
  | zero => exact .refl
  | succ k ih =>
      have hsend : (Call.send line []).run (pendingLink line k) = pendingLink line (k + 1) := by
        show (pendingLink line k).queue .send line = _
        unfold Link.queue
        rw [if_pos ((hasRoom_pending hlen hstr k).mpr hk)]
        unfold Link.append pendingLink
        rw [hstr, List.replicate_succ', List.replicate_succ', List.flatten_append, List.flatten_singleton]
        rfl
      refine (ih (Nat.le_of_succ_le hk)).tail (a := .call (.send line [])) trivial ?_
      exact congrArg (fun l => some (⟨l, .idle⟩ : Conn)) hsend

/-- The fifth line does not fit, but the four before it are written in the same call. -/
def resumedLink (line : List UInt8) : Link SlotInfo :=
  { pendingLink line 4 with
    sock := { (pendingLink line 4).sock with received := (pendingLink line 4).writeBuf }
    writeBuf := []
    drops := [.overflow]
    sent := List.replicate 4 (sentLine line .queued) ++ [sentLine line .refused] }

theorem send_full (hlen : line.length = 7000) (hstr : cstr line = line) :
    (Call.send line [.took 28000]).run (pendingLink line 4) = resumedLink line := by
  show ((pendingLink line 4).queue .send line).drainWrite [.took 28000] = _
  have hlen4 := length_pending hlen 4
  have hne : (pendingLink line 4).writeBuf ≠ [] := by
    intro hnil
    rw [hnil] at hlen4
    exact absurd hlen4 (by decide)
  have hmin : min 28000 (4 * 7000) = 4 * 7000 := rfl
  unfold Link.queue
  rw [if_neg (mt (hasRoom_pending hlen hstr 4).mp (by decide))]
  unfold Link.refuse Link.drop Link.drainWrite
  dsimp only
  rw [if_neg hne, hlen4, if_neg (by decide), hmin, hstr, List.take_of_length_le hlen4.le,
    List.drop_of_length_le hlen4.le]
  rfl

end Resumes

/-- A line that is sent after one that could not be queued is delivered. -/
theorem stream_intact_resumes : ∃ c pre e post, Reaches Conn.step Free (Conn.accepted 1 true [] false) c ∧
    c.link.sent = pre ++ e :: post ∧ e.fate = .refused ∧ ¬c.link.sock.received <+: stream pre := by
  obtain ⟨line, hlen, hstr⟩ : ∃ line : List UInt8, line.length = 7000 ∧ cstr line = line := by
    refine ⟨List.replicate 7000 (byte 'a'), List.length_replicate, List.takeWhile_eq_self_iff.mpr fun c hc => ?_⟩
    rw [List.eq_of_mem_replicate hc]
    decide
  have hfull : Conn.step ⟨pendingLink line 4, .idle⟩ (.call (.send line [.took 28000])) =
      some ⟨resumedLink line, .idle⟩ :=
    congrArg (fun l => some (⟨l, .idle⟩ : Conn)) (send_full hlen hstr)
  have hrun := ((reaches_pending hlen hstr le_rfl).tail trivial hfull).tail
    (a := .call (.send (text "b\n") [.took 2])) trivial rfl
  refine ⟨_, List.replicate 4 (sentLine line .queued), sentLine line .refused, [⟨.send, text "b\n", .queued⟩],
    hrun, rfl, rfl, fun hle => ?_⟩
  have hle := hle.length_le
  have hstream : (stream (List.replicate 4 (sentLine line .queued))).length = 28000 := by
    show (line ++ (line ++ (line ++ (line ++ [])))).length = 28000
    simp only [List.length_append, List.length_nil, hlen]
  have hreceived : ((Call.send (text "b\n") [.took 2]).run (resumedLink line)).sock.received =
      (pendingLink line 4).writeBuf ++ text "b\n" := rfl
  change ((Call.send (text "b\n") [.took 2]).run (resumedLink line)).sock.received.length ≤ _ at hle
  rw [hstream, hreceived, List.length_append, length_pending hlen] at hle
  exact absurd hle (by decide)

end SimpleSatOps.Transport
