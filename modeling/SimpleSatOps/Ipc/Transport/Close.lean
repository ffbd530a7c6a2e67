import SimpleSatOps.Ipc.Transport.Chunks

/-!
# Lines and the end of a connection

A link that is dropped is not read any more, whatever is still queued: a hang-up that `poll` reports together with
unread lines takes them with it.

* `Conn.Timely`, `Handle.Timely` : no complete line is unread when an action drops the connection;
* `Complete` : the invariant of runs of such actions;
* `lines_complete` : in them every line is dispatched before the slot is freed, or the handle is disconnected.
-/

namespace SimpleSatOps.Transport
open Ipc

namespace Link
variable {ω κ : Type} {l l' : Link ω}

/-- Every complete line the peer wrote was dispatched. -/
def Delivered (l : Link ω) : Prop :=
  l.lines = Framing.lines newline l.sock.written ∧ l.events = l.lines.flatMap l.handled

/-- A complete line is still to be read. -/
def Waiting (l : Link ω) : Prop := newline ∈ l.sock.unread

instance (l : Link ω) : Decidable l.Waiting := inferInstanceAs (Decidable (_ ∈ _))

/-- Some line of the peer does not fit the read buffer. -/
def TooLong (l : Link ω) : Prop := Framing.Overlong newline (readBufSize - 1) l.sock.written

/-- A link that is dropped has no line waiting, as long as the lines fit. -/
def Complete (l : Link ω) : Prop := ¬l.TooLong → l.dead = true → ¬l.Waiting

theorem TooLong.of_prefix (h : l.TooLong) (hle : l.sock.written <+: l'.sock.written) : l'.TooLong := by
  obtain ⟨t, ht⟩ := hle
  unfold TooLong
  rw [← ht]
  exact Framing.Overlong.append h t

theorem Calls.waiting_iff (h : Calls l l') : l'.Waiting ↔ l.Waiting := by
  unfold Waiting
  rw [h.unread]

theorem Calls.tooLong_iff (h : Calls l l') : l'.TooLong ↔ l.TooLong := by
  unfold TooLong
  rw [h.written]

/-- Everything that was dispatched, when no line is waiting. -/
theorem Steady.delivered (h : Steady l) (hwait : ¬l.Waiting) : l.Delivered := by
  obtain ⟨c, hframed, -⟩ := h
  refine ⟨?_, hframed.events⟩
  rw [hframed.written, Framing.lines_append_of_free, hframed.reads.lines_eq]
  rw [hframed.reads.rest_eq, List.mem_append]
  rintro (hm | hm)
  · exact hframed.reads.free hm
  · exact hwait hm

namespace Complete

theorem calls (h : Complete l) (hc : Calls l l') (hok : l'.dead = true → l.dead = true ∨ ¬l.Waiting) :
    Complete l' := by
  intro hfit hdead hwait
  rw [hc.tooLong_iff] at hfit
  rw [hc.waiting_iff] at hwait
  rcases hok hdead with hd | hw
  · exact h hfit hd hwait
  · exact hw hwait

theorem arrive (h : Complete l) {bs : List UInt8} {close : Bool}
    (hok : l.dead = true → l.sock.closed = false → newline ∉ bs) :
    Complete { l with sock := l.sock.arrive bs close } := by
  intro hfit hdead hwait
  have hdead' : l.dead = true := hdead
  have hfit' : ¬l.TooLong := fun hlong =>
    hfit (hlong.of_prefix (l.sock.written_prefix_arrive bs close))
  have hfree := h hfit' hdead'
  unfold Waiting Sock.arrive at hwait
  dsimp only at hwait
  split_ifs at hwait with hclosed
  · exact hfree hwait
  · rcases List.mem_append.mp hwait with hm | hm
    · exact hfree hm
    · exact hok hdead' (Bool.eq_false_iff.mpr hclosed) hm

/-- After a drain no line is waiting, as long as the lines fit. -/
theorem of_drainRead {dispatch : List UInt8 → List κ → Link ω → Link ω} (hd : Dispatches dispatch)
    (ts : List (ReadTurn κ)) (hsteady : Steady l) (hfit : ¬(l.drainRead dispatch ts).1.TooLong) :
    (l.drainRead dispatch ts).1.sock.unread = [] := by
  obtain ⟨hs, hall⟩ := hsteady.drainRead hd ts
  refine hall.resolve_right fun hlong => hfit ?_
  exact (hs.dispatched_written (.inr hlong)).overlong.mp hlong

end Complete

end Link

/-! ## The server -/

/-- While a complete line is unread, the action neither drops the connection nor finds it dropped. -/
def Conn.Timely (c : Conn) : Action → Prop
  | .peer bs _ => c.link.dead = true → c.link.sock.closed = false → newline ∉ bs
  | .call x => (x.run c.link).dead = true → c.link.dead = true ∨ ¬c.link.Waiting
  | .poll _ _ => True
  | .serve _ ws => ∀ rev, c.phase = .polled rev → c.link.Waiting → rev.err = false ∧ rev.hup = false ∧
      (rev.pollIn = false → (slotWrite rev ws c.link).dead = true → c.link.dead = true)
  | .prune => True

theorem complete_serveSlot {l : Link SlotInfo} (hsteady : l.Steady) (h : l.Complete) {rev : Revents}
    (ts : List (ReadTurn Call)) {ws : List WriteResult}
    (hok : l.Waiting → rev.err = false ∧ rev.hup = false ∧
      (rev.pollIn = false → (slotWrite rev ws l).dead = true → l.dead = true)) :
    (serveSlot rev ts ws l).Complete := by
  intro hfit hdead hwait
  have hcalls := calls_slotWrite rev ws (slotRead rev ts (markHangup rev l))
  unfold serveSlot at hfit hdead hwait
  rw [hcalls.tooLong_iff] at hfit
  rw [hcalls.waiting_iff] at hwait
  by_cases hread : (!(markHangup rev l).dead && rev.pollIn) = true
  · have heq : slotRead rev ts (markHangup rev l) = slotDrainRead ts (markHangup rev l) := if_pos hread
    rw [heq] at hfit hwait
    have hnil := Link.Complete.of_drainRead dispatches_slotDispatchLine ts (hsteady.markHangup rev) hfit
    unfold Link.Waiting slotDrainRead at hwait
    rw [hnil] at hwait
    exact List.not_mem_nil hwait
  · -- The turn is skipped: nothing is read, so nothing may be waiting.
    have heq : slotRead rev ts (markHangup rev l) = markHangup rev l := if_neg hread
    rw [heq] at hfit hdead hwait
    have hmark : (markHangup rev l).Waiting ↔ l.Waiting := by
      unfold markHangup
      split_ifs <;> exact Iff.rfl
    obtain ⟨herr, hhup, hwrite⟩ := hok (hmark.mp hwait)
    have hsame : markHangup rev l = l := by
      unfold markHangup
      rw [herr, hhup]
      rfl
    rw [hsame] at hfit hdead hwait hread
    by_cases hd : l.dead = true
    · exact h hfit hd hwait
    · have hin : rev.pollIn = false := by simpa [hd] using hread
      exact hd (hwrite hin hdead)

theorem complete_conn_step {c c' : Conn} {a : Action} (hsteady : c.link.Steady) (h : c.link.Complete)
    (hok : c.Timely a) (hs : c.step a = some c') : c'.link.Complete := by
  cases connStep_of hs with
  | peer bs close => exact h.arrive hok
  | call x hphase => exact h.calls (calls_run x _) hok
  | poll writable err hphase => exact h
  | serve ts ws rev hphase => exact complete_serveSlot hsteady h ts (hok rev hphase)
  | prune hphase => exact h

/-- A slot that is freed is marked dead. -/
def Conn.FreedDead (c : Conn) : Prop := c.phase = .freed → c.link.dead = true

theorem freedDead_step {c c' : Conn} {a : Action} (h : c.FreedDead) (hs : c.step a = some c') : c'.FreedDead := by
  intro hfreed
  cases connStep_of hs with
  | peer bs close => exact h hfreed
  | call x hphase => exact absurd hfreed hphase
  | poll writable err hphase => exact absurd hfreed nofun
  | serve ts ws rev hphase => exact absurd hfreed nofun
  | prune hphase =>
      by_contra hdead
      simp only [hdead, if_false] at hfreed
      exact absurd hfreed nofun

/-! ## The client -/

/-- While a complete line is unread, the action neither drops the connection nor finds it dropped. -/
def Handle.Timely (c : Handle) : HandleAction → Prop
  | .peer bs _ => c.link.dead = true → c.link.sock.closed = false → newline ∉ bs
  | .send x => (x.run c.link).dead = true → c.link.dead = true ∨ ¬c.link.Waiting
  | .poll _ _ => True
  | .serve _ ws => ∀ rev, c.polled = some rev → c.link.Waiting → rev.err = false ∧ rev.hup = false ∧
      (rev.pollIn = false → rev.pollOut = true → (c.link.drainWrite ws).dead = true → c.link.dead = true)

theorem complete_serveClient {l : Link Unit} (hsteady : l.Steady) (h : l.Complete) {rev : Revents}
    (ts : List (ReadTurn Send)) {ws : List WriteResult}
    (hok : l.Waiting → rev.err = false ∧ rev.hup = false ∧
      (rev.pollIn = false → rev.pollOut = true → (l.drainWrite ws).dead = true → l.dead = true)) :
    (serveClient rev ts ws l).Complete := by
  unfold serveClient
  by_cases hhup : (rev.err || rev.hup) = true
  · rw [if_pos hhup]
    intro _ _ hwait
    obtain ⟨herr, hh, -⟩ := hok hwait
    rw [herr, hh] at hhup
    exact absurd hhup Bool.false_ne_true
  · rw [if_neg hhup]
    by_cases hin : rev.pollIn = true
    · have heq : clientRead rev ts l = clientDrainRead ts l := if_pos hin
      rw [heq]
      have hdrain : ∀ l', Link.Calls (clientDrainRead ts l).1 l' → l'.Complete := by
        intro l' hc hfit _ hwait
        rw [hc.tooLong_iff] at hfit
        rw [hc.waiting_iff] at hwait
        have hnil := Link.Complete.of_drainRead dispatches_clientDispatchLine ts hsteady hfit
        unfold Link.Waiting clientDrainRead at hwait
        rw [hnil] at hwait
        exact List.not_mem_nil hwait
      split_ifs
      · exact hdrain _ (.refl _)
      · exact hdrain _ (.drainWrite ws _)
      · exact hdrain _ (.refl _)
    · have heq : clientRead rev ts l = (l, false) := if_neg hin
      rw [heq, if_neg Bool.false_ne_true]
      split_ifs with hout
      · refine h.calls (.drainWrite ws l) fun hdead => ?_
        by_cases hwait : l.Waiting
        · exact .inl ((hok hwait).2.2 (Bool.eq_false_iff.mpr hin) hout hdead)
        · exact .inr hwait
      · exact h

theorem complete_handle_step {c c' : Handle} {a : HandleAction} (hsteady : c.link.Steady) (h : c.link.Complete)
    (hok : c.Timely a) (hs : c.step a = some c') : c'.link.Complete := by
  cases handleStep_of hs with
  | peer bs close => exact h.arrive hok
  | send x hpolled => exact h.calls (calls_send x _) hok
  | poll writable err hpolled hdead => exact h
  | serve ts ws rev hpolled => exact complete_serveClient hsteady h ts (hok rev hpolled)

/-! ## Runs -/

theorem Link.complete_new {ω : Type} (own : ω) (handler : Bool) (k : Sock) : (Link.new own handler k).Complete := by
  intro _ hdead
  exact absurd rfl (dead_iff.mp hdead)

/-- As long as every line fits and no connection is dropped over a complete line that is unread, every complete line
is dispatched before the slot of the client is freed, or the handle of the client is disconnected. -/
theorem lines_complete (handler : Bool) :
    (∀ id s closed c, Reaches Conn.step Conn.Timely (Conn.accepted id handler s closed) c → ¬c.link.TooLong →
      c.phase = .freed → c.link.Delivered) ∧
    ∀ c, Reaches Handle.step Handle.Timely (Handle.connected handler) c → ¬c.link.TooLong →
      c.link.dead = true → c.link.Delivered := by
  refine ⟨fun id s closed c h hfit hfreed => ?_, fun c h hfit hdead => ?_⟩
  · have hinv : c.link.Steady ∧ c.link.Complete ∧ c.FreedDead := by
      refine h.invariant (P := fun c => c.link.Steady ∧ c.link.Complete ∧ c.FreedDead)
        ⟨.new _ _ _ rfl, Link.complete_new _ _ _, nofun⟩ ?_
      rintro t a u ⟨hsteady, hcomplete, hdead⟩ hok hs
      exact ⟨steady_conn_step hsteady hs, complete_conn_step hsteady hcomplete hok hs, freedDead_step hdead hs⟩
    obtain ⟨hsteady, hcomplete, hdead⟩ := hinv
    exact hsteady.delivered (hcomplete hfit (hdead hfreed))
  · have hinv : c.link.Steady ∧ c.link.Complete := by
      refine h.invariant (P := fun c => c.link.Steady ∧ c.link.Complete) ⟨.new _ _ _ rfl, Link.complete_new _ _ _⟩ ?_
      rintro t a u ⟨hsteady, hcomplete⟩ hok hs
      exact ⟨steady_handle_step hsteady hs, complete_handle_step hsteady hcomplete hok hs⟩
    exact hinv.1.delivered (hinv.2 hfit hdead)

/-- A peer that writes a line, is read, and closes; and a server that does. -/
theorem lines_complete_hello :
    (∃ c : Conn, c.phase = .freed ∧ c.link.lines = [text "hello"] ∧ c.link.Delivered) ∧
    ∃ c : Handle, c.link.dead = true ∧ c.link.lines = [text "hello"] ∧ c.link.Delivered := by
  constructor
  · have hrun : Reaches Conn.step Conn.Timely (Conn.accepted 1 true (text "hello\n") false) _ :=
      ((Reaches.refl.tail (a := .poll false false) trivial rfl).tail
        (a := .serve [⟨[], false, 3, false, []⟩, ⟨[], false, 3, false, []⟩, ⟨[], true, 1, false, []⟩] [])
        (by
          intro rev hrev _
          obtain rfl := Phase.polled.inj hrev
          decide) rfl).tail (a := .prune) trivial rfl
    refine ⟨_, ?_, ?_, (lines_complete true).1 1 (text "hello\n") false _ hrun ?_ ?_⟩
    · decide +kernel
    · decide +kernel
    · exact Framing.not_overlong_of_length_lt (by decide +kernel)
    · decide +kernel
  · have hrun : Reaches Handle.step Handle.Timely (Handle.connected true) _ :=
      ((Reaches.refl.tail (a := .peer (text "hello\n") false) (fun h => absurd h (by decide)) rfl).tail
        (a := .poll false false) trivial rfl).tail
        (a := .serve [⟨[], false, 3, false, []⟩, ⟨[], false, 3, false, []⟩, ⟨[], true, 1, false, []⟩] [])
        (by
          intro rev hrev _
          obtain rfl := Option.some.inj hrev
          decide) rfl
    refine ⟨_, ?_, ?_, (lines_complete true).2 _ hrun ?_ ?_⟩
    · decide +kernel
    · decide +kernel
    · exact Framing.not_overlong_of_length_lt (by decide +kernel)
    · decide +kernel

/-- A peer that sends one request and exits: the hang-up comes with the line, and the line is lost. So does a server
that sends a last line and closes. -/
theorem lines_complete_yield :
    (∃ c, Reaches Conn.step Free (Conn.accepted 1 true [] false) c ∧ ¬c.link.TooLong ∧ c.phase = .freed ∧
      ¬c.link.Delivered) ∧
    ∃ c, Reaches Handle.step Free (Handle.connected true) c ∧ ¬c.link.TooLong ∧ c.link.dead = true ∧
      ¬c.link.Delivered := by
  have hline : Framing.lines newline (text "\x7b\"t\":\"yield-request\"\x7d\n") ≠ [] := by
    have heq : text "\x7b\"t\":\"yield-request\"\x7d\n" = text "\x7b\"t\":\"yield-request\"\x7d" ++ newline :: [] := by
      decide
    rw [heq, Framing.lines_line_cons (by decide)]
    exact List.cons_ne_nil _ _
  have hfit : ¬Framing.Overlong newline (readBufSize - 1) (text "\x7b\"t\":\"yield-request\"\x7d\n") :=
    Framing.not_overlong_of_length_lt (by decide)
  constructor
  · exact ⟨_, .of_foldlM
      [.peer (text "\x7b\"t\":\"yield-request\"\x7d\n") true, .poll false false, .serve [] [], .prune] rfl, hfit, rfl,
      fun h => hline h.1.symm⟩
  · exact ⟨_, .of_foldlM [.peer (text "\x7b\"t\":\"yield-request\"\x7d\n") true, .poll false false, .serve [] []] rfl,
      hfit, rfl, fun h => hline h.1.symm⟩

end SimpleSatOps.Transport
