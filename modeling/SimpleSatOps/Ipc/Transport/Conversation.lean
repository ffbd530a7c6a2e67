import SimpleSatOps.Ipc.OneLine
import SimpleSatOps.Ipc.RoundTrip
import SimpleSatOps.Ipc.Transport.Chunks
import SimpleSatOps.Ipc.Transport.Outbound

/-!
# Both ends of a connection

A client slot of the server and the handle of the client, with a network between them that carries bytes in order.

* `Net`, `Net.step`, `Carries` : the two ends, and what the network may do;
* `outbound_handle` : the send side of the client;
* `Fits`, `decodeLine_content` : the events that fit a line, and what is read of the line;
* `handled_prefix`, `handled_all` : what one end has handled, by what the other one has sent;
* `conversation` : each end handles the events of the other in order, none lost in front of another, none twice.
-/

namespace SimpleSatOps.Transport
open Ipc Json JsonText

/-! ## The network -/

structure Net where
  conn : Conn
  handle : Handle

inductive NetAction where
  | server (a : Action)
  | client (a : HandleAction)

def Net.step (n : Net) : NetAction → Option Net
  | .server a => (n.conn.step a).map fun c => { n with conn := c }
  | .client a => (n.handle.step a).map fun h => { n with handle := h }

/-- What has come out of the network at each end went in at the other. -/
structure Net.Carried (n : Net) : Prop where
  down : n.handle.link.sock.written <+: n.conn.link.sock.received
  up : n.conn.link.sock.written <+: n.handle.link.sock.received

/-- The peer of each end is the other end. -/
def Carries (n : Net) (a : NetAction) : Prop := ∀ n', n.step a = some n' → n'.Carried

/-- A connection that was just made; both applications have set their handlers. -/
def Net.start (id : ℕ) : Net := ⟨.accepted id true [] false, .connected true⟩

section
variable {id : ℕ} {n : Net}

theorem reaches_conn (h : Reaches Net.step Carries (.start id) n) :
    Reaches Conn.step Free (Conn.accepted id true [] false) n.conn := by
  induction h with
  | refl => exact .refl
  | @tail n n' a _ _ hstep ih =>
      cases a with
      | server a =>
          obtain ⟨c, hc, rfl⟩ := Option.map_eq_some_iff.mp hstep
          exact ih.tail trivial hc
      | client a =>
          obtain ⟨c, hc, rfl⟩ := Option.map_eq_some_iff.mp hstep
          exact ih

theorem reaches_handle (h : Reaches Net.step Carries (.start id) n) :
    Reaches Handle.step Free (Handle.connected true) n.handle := by
  induction h with
  | refl => exact .refl
  | @tail n n' a _ _ hstep ih =>
      cases a with
      | server a =>
          obtain ⟨c, hc, rfl⟩ := Option.map_eq_some_iff.mp hstep
          exact ih
      | client a =>
          obtain ⟨c, hc, rfl⟩ := Option.map_eq_some_iff.mp hstep
          exact ih.tail trivial hc

theorem carried (h : Reaches Net.step Carries (.start id) n) : n.Carried := by
  cases h with
  | refl => exact ⟨List.prefix_rfl, List.prefix_rfl⟩
  | tail _ hok hstep => exact hok _ hstep

end

/-! ## The send side of the client -/

theorem outbound_send {l : Link Unit} (h : l.Outbound) (x : Send) : (x.run l).Outbound := by
  have hvia : l.dead = true → Via.send ≠ .broadcast := fun _ => nofun
  unfold Send.run
  split_ifs
  · exact h
  · exact (h.append x.line hvia).drainWrite x.ws
  · exact h.refuse x.line nofun hvia

theorem outbound_clientDispatchLine (line : List UInt8) (app : List Send) {l : Link Unit} (h : l.Outbound) :
    (clientDispatchLine line app l).Outbound := by
  have hlog : (l.log line).Outbound := h.same ⟨rfl, rfl, rfl, id⟩
  have hsends : ∀ (app : List Send) {l : Link Unit}, l.Outbound →
      (app.foldl (fun l (x : Send) => x.run l) l).Outbound := by
    intro app
    induction app with
    | nil => exact fun h => h
    | cons x app ih => exact fun h => ih (outbound_send h x)
  unfold clientDispatchLine
  split_ifs
  · cases decodeLine line with
    | none => exact hlog
    | some evt => exact hsends app hlog
  · exact hlog

theorem outbound_serveClient {l : Link Unit} (h : l.Outbound) (rev : Revents) (ts : List (ReadTurn Send))
    (ws : List WriteResult) : (serveClient rev ts ws l).Outbound := by
  have hread : (clientRead rev ts l).1.Outbound := by
    unfold clientRead clientDrainRead Link.drainRead
    split_ifs
    · exact Link.readLoop_induct (fun line app _ h => outbound_clientDispatchLine line app h)
        (fun l c h => h.same (.drop l c)) (fun _ _ _ h hk => h.same ⟨hk, rfl, rfl, id⟩) _ ts _ h
    · exact h
  unfold serveClient
  split_ifs
  · exact h.same (.drop l _)
  · exact hread
  · exact hread.drainWrite ws
  · exact hread

theorem outbound_handle_step {c c' : Handle} {a : HandleAction} (h : c.link.Outbound) (hs : c.step a = some c') :
    c'.link.Outbound := by
  cases handleStep_of hs with
  | peer bs close => exact h.same ⟨c.link.sock.received_arrive bs close, rfl, rfl, id⟩
  | send x hpolled => exact outbound_send h x
  | poll writable err hpolled hdead => exact h
  | serve ts ws rev hpolled => exact outbound_serveClient h rev ts ws

theorem outbound_handle {handler : Bool} {c : Handle} (h : Reaches Handle.step Free (Handle.connected handler) c) :
    c.link.Outbound :=
  h.invariant (P := fun c => c.link.Outbound) (.new _ _ _ rfl) fun _ _ _ ht _ hs => outbound_handle_step ht hs

theorem outbound_conn {id : ℕ} {handler : Bool} {s : List UInt8} {closed : Bool} {c : Conn}
    (h : Reaches Conn.step Free (Conn.accepted id handler s closed) c) : c.link.Outbound :=
  h.invariant (P := fun c => c.link.Outbound) (.new _ _ _ rfl) fun _ _ _ ht _ hs => outbound_conn_step ht hs

/-! ## Events on lines -/

/-- The event is one that is read back, and its line fits the buffer of the other end. -/
structure Fits (e : Event) : Prop where
  sound : e.Sound
  roster : FromSetRoster e.rosterJson
  size : e.size < readBufSize

/-- The line of an event, without its terminator. -/
def content (e : Event) : List UInt8 := byte '{' :: (e.body ++ [byte '}'])

theorem line_content (e : Event) : e.line = content e ++ [newline] := by
  have hend : text "\x7d\n" = [byte '}', byte '\n'] := by decide
  rw [Event.line, hend, content, List.cons_append, List.append_assoc]
  rfl

theorem Fits.free {e : Event} (h : Fits e) : newline ∉ content e := by
  simp only [content, List.mem_cons, List.mem_append, List.not_mem_nil, or_false, not_or]
  refine ⟨by decide, fun hmem => ?_, by decide⟩
  exact absurd (le_of_mem_body h.roster _ hmem) (by decide)

theorem Fits.length_lt {e : Event} (h : Fits e) : (content e).length < readBufSize - 1 := by
  have hlen := length_line e
  have hsize := h.size
  rw [line_content, List.length_append, List.length_singleton] at hlen
  omega

/-- The roster of a sound event is one that the reader takes whole. -/
theorem token_roster {e : Event} (he : e.Sound) (hwire : .roster ∈ e.onWire) : Token e.roster := by
  obtain ⟨entries, heq, -⟩ := he.roster_eq (roster_ne_nil hwire)
  rw [heq]
  exact .of_value (value_rosterText entries)

/-- The terminator is not looked at. -/
theorem getField_content {e : Event} (he : e.Sound) : getField (content e) = getField e.line := by
  funext key
  have hend : text "\x7d\n" = byte '}' :: [byte '\n'] := by decide
  have hread := readable_pairsOf (token_roster he)
  rw [content, Event.line, hend, getField_brace, getField_brace, find_members_close (members_body e) hread,
    find_members_close (members_body e) hread]

theorem decodeLine_content {e : Event} (h : Fits e) : decodeLine (content e) = some e.decoded := by
  have hfree : 0 ∉ content e := by
    have hline := nul_not_mem_line e
    rw [line_content, List.mem_append, not_or] at hline
    exact hline.1
  have htype : getField e.line Slot.type.key = e.foundOf .type := by
    rw [h.sound.get, if_pos (mem_onWire_type e)]
  rw [decodeLine, cstr_of_not_mem hfree, getField_content h.sound, decode_get e htype]
  rfl

/-! ## What one end handles of what the other sends -/

/-- The lines that were queued are those of the events. -/
def Sends (sent : List Entry) (es : List Event) : Prop :=
  (sent.filter (·.fate = .queued)).map Entry.line = es.map Event.line ∧ ∀ e ∈ es, Fits e

theorem stream_of_sends {sent : List Entry} {es : List Event} (h : Sends sent es) :
    stream sent = (es.map content).flatMap (· ++ [newline]) := by
  have hstream : stream sent = ((sent.filter (·.fate = .queued)).map Entry.line).flatten := by
    clear h
    unfold stream
    induction sent with
    | nil => rfl
    | cons x sent ih =>
        rw [List.flatMap_cons, ih]
        by_cases hx : x.fate = .queued
        · rw [if_pos hx, List.filter_cons_of_pos (by simpa using hx), List.map_cons, List.flatten_cons]
        · rw [if_neg hx, List.filter_cons_of_neg (by simpa using hx), List.nil_append]
  rw [hstream, h.1, List.flatMap_map]
  exact congrArg List.flatten (List.map_congr_left fun e _ => line_content e)

section Handled
variable {ω : Type} {l : Link ω} {sent : List Entry} {es : List Event}

theorem flatMap_handled (hhandler : l.handler = true) (hs : ∀ e ∈ es, Fits e) :
    (es.map content).flatMap l.handled = es.map Event.decoded := by
  rw [List.flatMap_map, List.map_eq_flatMap]
  refine List.flatMap_congr fun e he => ?_
  rw [Link.handled, if_pos hhandler, decodeLine_content (hs e he)]
  rfl

theorem Sends.free (hs : Sends sent es) : ∀ line ∈ es.map content, newline ∉ line :=
  List.forall_mem_map.mpr fun e he => (hs.2 e he).free

theorem Sends.length_lt (hs : Sends sent es) : ∀ line ∈ es.map content, line.length < readBufSize - 1 :=
  List.forall_mem_map.mpr fun e he => (hs.2 e he).length_lt

/-- Nothing but what was sent, in order. -/
theorem handled_prefix (h : l.Steady) (hhandler : l.handler = true) (hs : Sends sent es)
    (hwritten : l.sock.written <+: stream sent) : ∃ k, l.events = (es.take k).map Event.decoded := by
  obtain ⟨c, hc, hlines, hevents, -⟩ := h.dispatched
  have hc' : c <+: (es.map content).flatMap (· ++ [newline]) := by
    rw [← stream_of_sends hs]
    exact List.IsPrefix.trans ⟨_, hc.symm⟩ hwritten
  have hpre : l.lines <+: es.map content := by
    rw [hlines]
    exact Framing.fitting_prefix newline _ hs.free hc'
  have htake : l.lines = (es.take l.lines.length).map content := by
    rw [List.map_take]
    exact List.prefix_iff_eq_take.mp hpre
  refine ⟨l.lines.length, ?_⟩
  rw [hevents, htake, flatMap_handled hhandler fun e he => hs.2 e (List.mem_of_mem_take he), ← htake]

/-- Everything, once it has come and been read. -/
theorem handled_all (h : l.Steady) (hhandler : l.handler = true) (hs : Sends sent es)
    (hwritten : l.sock.written = stream sent) (hread : l.sock.unread = []) : l.events = es.map Event.decoded := by
  obtain ⟨hlines, hevents, -⟩ := h.dispatched_written (.inl hread)
  rw [hwritten, stream_of_sends hs, Framing.fitting_flatMap newline hs.free hs.length_lt] at hlines
  rw [hevents, hlines, flatMap_handled hhandler hs.2]

end Handled

/-! ## The handlers stay -/

section Handlers

theorem handler_drainRead {ω κ : Type} {l : Link ω} {dispatch : List UInt8 → List κ → Link ω → Link ω}
    (hd : Link.Dispatches dispatch) (ts : List (ReadTurn κ)) (h : l.handler = true) :
    (l.drainRead dispatch ts).1.handler = true :=
  Link.readLoop_induct (P := fun l => l.handler = true) (fun line app l h => (hd line app l).handler.trans h)
    (fun _ _ h => h) (fun _ _ _ h _ => h) _ ts l h

theorem handler_slotRead (rev : Revents) (ts : List (ReadTurn Call)) {l : Link SlotInfo} (h : l.handler = true) :
    (slotRead rev ts l).handler = true := by
  unfold slotRead
  split_ifs
  · exact handler_drainRead dispatches_slotDispatchLine ts h
  · exact h

theorem handler_markHangup {ω : Type} (rev : Revents) {l : Link ω} (h : l.handler = true) :
    (markHangup rev l).handler = true := by
  unfold markHangup
  split_ifs <;> exact h

theorem handler_conn {id : ℕ} {s : List UInt8} {closed : Bool} {c : Conn}
    (h : Reaches Conn.step Free (Conn.accepted id true s closed) c) : c.link.handler = true := by
  refine h.invariant (P := fun c => c.link.handler = true) rfl fun t a u ht _ hs => ?_
  cases connStep_of hs with
  | peer bs close => exact ht
  | call x hphase => exact (calls_run x _).handler.trans ht
  | poll writable err hphase => exact ht
  | serve ts ws rev hphase =>
      exact (calls_slotWrite rev ws _).handler.trans (handler_slotRead rev ts (handler_markHangup rev ht))
  | prune hphase => exact ht

theorem handler_clientRead (rev : Revents) (ts : List (ReadTurn Send)) {l : Link Unit} (h : l.handler = true) :
    (clientRead rev ts l).1.handler = true := by
  unfold clientRead
  split_ifs
  · exact handler_drainRead dispatches_clientDispatchLine ts h
  · exact h

theorem handler_serveClient (rev : Revents) (ts : List (ReadTurn Send)) (ws : List WriteResult) {l : Link Unit}
    (h : l.handler = true) : (serveClient rev ts ws l).handler = true := by
  have hread := handler_clientRead rev ts h
  unfold serveClient
  split_ifs
  · exact h
  · exact hread
  · exact (Link.Calls.drainWrite ws _).handler.trans hread
  · exact hread

theorem handler_handle {c : Handle} (h : Reaches Handle.step Free (Handle.connected true) c) :
    c.link.handler = true := by
  refine h.invariant (P := fun c => c.link.handler = true) rfl fun t a u ht _ hs => ?_
  cases handleStep_of hs with
  | peer bs close => exact ht
  | send x hpolled => exact (calls_send x _).handler.trans ht
  | poll writable err hpolled hdead => exact ht
  | serve ts ws rev hpolled => exact handler_serveClient rev ts ws ht

end Handlers

/-! ## The conversation -/

/-- What the receiver has handled of the events that were queued at the sender. -/
structure Delivers {ω ω' : Type} (sender : Link ω) (receiver : Link ω') (es : List Event) : Prop where
  inOrder : ∃ k, receiver.events = (es.take k).map Event.decoded
  all : sender.writeBuf = [] → receiver.sock.written = sender.sock.received → receiver.sock.unread = [] →
    receiver.events = es.map Event.decoded

theorem delivers {ω ω' : Type} {sender : Link ω} {receiver : Link ω'} {es : List Event} (hout : sender.Outbound)
    (hsteady : receiver.Steady) (hhandler : receiver.handler = true)
    (hcarried : receiver.sock.written <+: sender.sock.received) (hs : Sends sender.sent es) :
    Delivers sender receiver es where
  inOrder := handled_prefix hsteady hhandler hs (hcarried.trans ⟨_, hout.whole⟩)
  all hwrite hwritten hread := by
    refine handled_all hsteady hhandler hs ?_ hread
    have hwhole := hout.whole
    rw [hwrite, List.append_nil] at hwhole
    exact hwritten.trans hwhole

/-- **Each end of a connection handles the events the other end queued for it, in order and none twice**, whatever the
chunks the network cuts the lines into and whatever the two ends do between them; once everything is written, carried
and read it has handled all of them, and every event it handles is the one that was encoded. -/
theorem conversation {id : ℕ} {n : Net} (h : Reaches Net.step Carries (.start id) n) {down up : List Event}
    (hdown : Sends n.conn.link.sent down) (hup : Sends n.handle.link.sent up) :
    Delivers n.conn.link n.handle.link down ∧ Delivers n.handle.link n.conn.link up ∧
      ∀ e ∈ down ++ up, e.RoundTrips e.decoded := by
  have hconn := reaches_conn h
  have hhandle := reaches_handle h
  have hnet := carried h
  refine ⟨?_, ?_, fun e he => ?_⟩
  · exact delivers (outbound_conn hconn) (steady_handle hhandle) (handler_handle hhandle) hnet.down hdown
  · exact delivers (outbound_handle hhandle) (steady_conn hconn) (handler_conn hconn) hnet.up hup
  · rcases List.mem_append.mp he with he | he
    · exact roundTrips_decoded (hdown.2 e he).sound
    · exact roundTrips_decoded (hup.2 e he).sound

instance (n : Net) : Decidable n.Carried :=
  decidable_of_iff (n.handle.link.sock.written <+: n.conn.link.sock.received ∧
    n.conn.link.sock.written <+: n.handle.link.sock.received) ⟨fun h => ⟨h.1, h.2⟩, fun h => ⟨h.down, h.up⟩⟩

theorem carry {id : ℕ} {n n' : Net} (h : Reaches Net.step Carries (.start id) n) (a : NetAction)
    (hstep : n.step a = some n') (hc : n'.Carried) : Reaches Net.step Carries (.start id) n' :=
  h.tail (fun _ hm => Option.some.inj (hstep.symm.trans hm) ▸ hc) hstep

/-- An azimuth of 187.5 degrees. -/
def southEvent : Event := azOnly ⟨false, 1030, 2093470139285504⟩

theorem fits_southEvent : Fits southEvent := ⟨sound_azOnly _, .cleared, by decide +kernel⟩

/-- It goes to a client in two pieces, and is read in two. -/
theorem conversation_south : ∃ n, Reaches Net.step Carries (.start 1) n ∧
    n.handle.link.events = [southEvent.decoded] ∧ n.conn.link.events = [] ∧
    Delivers n.conn.link n.handle.link [southEvent] := by
  have hrun : Reaches Net.step Carries (.start 1) (.start 1) := .refl
  have hrun := carry hrun (.server (.call (.broadcast southEvent.line [.took 5, .took 9000]))) rfl (by decide +kernel)
  have hrun := carry hrun (.client (.peer southEvent.line false)) rfl (by decide +kernel)
  have hrun := carry hrun (.client (.poll false false)) rfl (by decide +kernel)
  have hrun := carry hrun (.client (.serve [⟨[], false, 7, false, []⟩] [])) rfl (by decide +kernel)
  have hfits : ∀ e ∈ [southEvent], Fits e := List.forall_mem_singleton.mpr fits_southEvent
  obtain ⟨hdown, hup, -⟩ := @conversation 1 _ hrun [southEvent] [] ⟨by decide +kernel, hfits⟩
    ⟨by decide +kernel, fun _ he => absurd he List.not_mem_nil⟩
  exact ⟨_, hrun, hdown.all (by decide +kernel) (by decide +kernel) (by decide +kernel),
    hup.all (by decide +kernel) (by decide +kernel) (by decide +kernel), hdown⟩

end SimpleSatOps.Transport
