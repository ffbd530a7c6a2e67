import SimpleSatOps.Ipc.Transport.Client

/-!
# Lines do not depend on chunks

* `Dispatched` : what a link is to have dispatched after a stream;
* `Steady` : the invariant of both ends, kept by whatever the peer, the application and the poll loop do;
* `chunks_irrelevant` : after every drain the link has dispatched what the stream says, however it came.
-/

namespace SimpleSatOps.Transport
open Ipc

namespace Link
variable {ω κ : Type} {l l' : Link ω}

/-- The link has dispatched the lines of `s` up to the first that does not fit the read buffer, and is dropped if there
is one. -/
structure Dispatched (l : Link ω) (s : List UInt8) : Prop where
  lines : l.lines = Framing.fitting newline (readBufSize - 1) s
  events : l.events = l.lines.flatMap l.handled
  overlong : Cause.overlong ∈ l.drops ↔ Framing.Overlong newline (readBufSize - 1) s

/-- What was read was dispatched, and the link is dropped as soon as the buffer is full. -/
def Steady (l : Link ω) : Prop := ∃ c, Framed l c ∧ (Cause.overlong ∈ l.drops ↔ readBufSize - 1 ≤ l.readBuf.length)

namespace Steady

theorem new (own : ω) (handler : Bool) (k : Sock) (h : k.written = k.unread) : Steady (Link.new own handler k) :=
  ⟨[], .new own handler k h, iff_of_false List.not_mem_nil (Nat.not_le.mpr (Nat.succ_pos _))⟩

theorem calls (h : Steady l) (hc : Calls l l') : Steady l' := by
  obtain ⟨c, hframed, hlong⟩ := h
  obtain ⟨cs, hcs, hsend⟩ := hc.drops
  refine ⟨c, hframed.calls hc, ?_⟩
  rw [hc.readBuf, hcs, List.mem_append, ← hlong]
  constructor
  · rintro (hm | hm)
    · exact hm
    · exact absurd (hsend _ hm) (by decide)
  · exact .inl

theorem drop (h : Steady l) {d : Cause} (hd : d ≠ .overlong) : Steady (l.drop d) := by
  obtain ⟨c, hframed, hlong⟩ := h
  refine ⟨c, hframed.drop d, ?_⟩
  show Cause.overlong ∈ l.drops ++ [d] ↔ readBufSize - 1 ≤ l.readBuf.length
  rw [List.mem_append, List.mem_singleton, ← hlong]
  exact or_iff_left hd.symm

theorem arrive (h : Steady l) (bs : List UInt8) (close : Bool) :
    Steady { l with sock := l.sock.arrive bs close } := by
  obtain ⟨c, hframed, hlong⟩ := h
  exact ⟨c, hframed.arrive bs close, hlong⟩

/-- After a drain there is nothing left to read, or the link is dropped for its buffer. -/
theorem drainRead {dispatch : List UInt8 → List κ → Link ω → Link ω} (hd : Dispatches dispatch)
    (ts : List (ReadTurn κ)) (h : Steady l) :
    Steady (l.drainRead dispatch ts).1 ∧
      ((l.drainRead dispatch ts).1.sock.unread = [] ∨ Cause.overlong ∈ (l.drainRead dispatch ts).1.drops) := by
  obtain ⟨c, hframed, hlong⟩ := h
  by_cases hfull : readBufSize - 1 ≤ l.readBuf.length
  · have heq : l.drainRead dispatch ts = (l.drop .overlong, true) := if_pos hfull
    have hmem : Cause.overlong ∈ (l.drop .overlong).drops := List.mem_append_right _ (List.mem_singleton_self _)
    rw [heq]
    exact ⟨⟨c, hframed.drop _, iff_of_true hmem hfull⟩, .inr hmem⟩
  · obtain ⟨c', cs, last, hframed', hdrops, hsend, hout⟩ := drainRead_spec hd ts hframed
    have hold : Cause.overlong ∉ l.drops ++ cs := by
      rw [List.mem_append]
      rintro (hm | hm)
      · exact hfull (hlong.mp hm)
      · exact absurd (hsend _ hm) (by decide)
    have hmem : Cause.overlong ∈ (l.drainRead dispatch ts).1.drops ↔ Cause.overlong ∈ last := by
      rw [hdrops, List.mem_append]
      exact or_iff_right hold
    generalize l.drainRead dispatch ts = r at *
    obtain ⟨l', b⟩ := r
    cases hout with
    | again hunread hroom =>
        exact ⟨⟨c', hframed', iff_of_false (mt hmem.mp List.not_mem_nil) (Nat.not_le.mpr hroom)⟩, .inl hunread⟩
    | overlong hfull' =>
        have hin := hmem.mpr (List.mem_singleton_self _)
        exact ⟨⟨c', hframed', iff_of_true hin hfull'⟩, .inr hin⟩
    | eof hunread _ hroom =>
        exact ⟨⟨c', hframed', iff_of_false (mt hmem.mp (by decide)) (Nat.not_le.mpr hroom)⟩, .inl hunread⟩
    | readError hunread hroom =>
        exact ⟨⟨c', hframed', iff_of_false (mt hmem.mp (by decide)) (Nat.not_le.mpr hroom)⟩, .inl hunread⟩

/-- What was dispatched, by the bytes that were read. -/
theorem dispatched (h : Steady l) : ∃ c, l.sock.written = c ++ l.sock.unread ∧ l.Dispatched c := by
  obtain ⟨c, hframed, hlong⟩ := h
  exact ⟨c, hframed.written, hframed.reads.fitting_eq.symm, hframed.events,
    hlong.trans hframed.reads.overlong_iff.symm⟩

/-- What was dispatched, by the whole stream. -/
theorem dispatched_written (h : Steady l) (hall : l.sock.unread = [] ∨ Cause.overlong ∈ l.drops) :
    l.Dispatched l.sock.written := by
  obtain ⟨c, hframed, hlong⟩ := h
  by_cases hfull : readBufSize - 1 ≤ l.readBuf.length
  · rw [hframed.written]
    exact ⟨(hframed.reads.fitting_append hfull _).symm, hframed.events,
      iff_of_true (hlong.mpr hfull) (hframed.reads.overlong_append hfull _)⟩
  · have hnil := hall.resolve_right (mt hlong.mp hfull)
    rw [hframed.written, hnil, List.append_nil]
    exact ⟨hframed.reads.fitting_eq.symm, hframed.events, hlong.trans hframed.reads.overlong_iff.symm⟩

end Steady

end Link

/-! ## The server -/

theorem Link.Steady.markHangup {ω : Type} {l : Link ω} (h : l.Steady) (rev : Revents) :
    (markHangup rev l).Steady := by
  unfold Transport.markHangup
  split_ifs
  · exact h.drop (by decide)
  · exact h

theorem Link.Steady.slotRead {l : Link SlotInfo} (h : l.Steady) (rev : Revents) (ts : List (ReadTurn Call)) :
    (slotRead rev ts l).Steady := by
  unfold Transport.slotRead
  split_ifs
  · exact (h.drainRead dispatches_slotDispatchLine ts).1
  · exact h

theorem calls_slotWrite (rev : Revents) (ws : List WriteResult) (l : Link SlotInfo) :
    Link.Calls l (slotWrite rev ws l) := by
  unfold slotWrite
  split_ifs
  · exact .drainWrite ws l
  · exact .refl l

theorem steady_serveSlot {l : Link SlotInfo} (h : l.Steady) (rev : Revents) (ts : List (ReadTurn Call))
    (ws : List WriteResult) : (serveSlot rev ts ws l).Steady :=
  ((h.markHangup rev).slotRead rev ts).calls (calls_slotWrite rev ws _)

theorem steady_conn_step {c c' : Conn} {a : Action} (h : c.link.Steady) (hs : c.step a = some c') : c'.link.Steady := by
  cases connStep_of hs with
  | peer bs close => exact h.arrive bs close
  | call x hphase => exact h.calls (calls_run x _)
  | poll writable err hphase => exact h
  | serve ts ws rev hphase => exact steady_serveSlot h rev ts ws
  | prune hphase => exact h

theorem steady_conn {id : ℕ} {handler : Bool} {s : List UInt8} {closed : Bool} {c : Conn}
    (h : Reaches Conn.step Free (Conn.accepted id handler s closed) c) : c.link.Steady :=
  h.invariant (P := fun c => c.link.Steady) (.new _ _ _ rfl) fun _ _ _ ht _ hs => steady_conn_step ht hs

/-! ## The client -/

theorem Link.Steady.clientRead {l : Link Unit} (h : l.Steady) (rev : Revents) (ts : List (ReadTurn Send)) :
    (clientRead rev ts l).1.Steady := by
  unfold Transport.clientRead
  split_ifs
  · exact (h.drainRead dispatches_clientDispatchLine ts).1
  · exact h

theorem steady_serveClient {l : Link Unit} (h : l.Steady) (rev : Revents) (ts : List (ReadTurn Send))
    (ws : List WriteResult) : (serveClient rev ts ws l).Steady := by
  have hread := h.clientRead rev ts
  unfold serveClient
  split_ifs
  · exact h.drop (by decide)
  · exact hread
  · exact hread.calls (.drainWrite ws _)
  · exact hread

theorem steady_handle_step {c c' : Handle} {a : HandleAction} (h : c.link.Steady) (hs : c.step a = some c') :
    c'.link.Steady := by
  cases handleStep_of hs with
  | peer bs close => exact h.arrive bs close
  | send x hpolled => exact h.calls (calls_send x _)
  | poll writable err hpolled hdead => exact h
  | serve ts ws rev hpolled => exact steady_serveClient h rev ts ws

theorem steady_handle {handler : Bool} {c : Handle} (h : Reaches Handle.step Free (Handle.connected handler) c) :
    c.link.Steady :=
  h.invariant (P := fun c => c.link.Steady) (.new _ _ _ rfl) fun _ _ _ ht _ hs => steady_handle_step ht hs

/-! ## Chunks -/

/-- At any time a link has dispatched what the bytes it read say, and after a drain what the whole stream says. -/
theorem chunks_irrelevant :
    (∀ id handler s closed c, Reaches Conn.step Free (Conn.accepted id handler s closed) c →
      (∃ t, c.link.sock.written = t ++ c.link.sock.unread ∧ c.link.Dispatched t) ∧
      ∀ ts, (slotDrainRead ts c.link).Dispatched (slotDrainRead ts c.link).sock.written) ∧
    ∀ handler c, Reaches Handle.step Free (Handle.connected handler) c →
      (∃ t, c.link.sock.written = t ++ c.link.sock.unread ∧ c.link.Dispatched t) ∧
      ∀ ts, (clientDrainRead ts c.link).1.Dispatched (clientDrainRead ts c.link).1.sock.written := by
  refine ⟨fun id handler s closed c h => ?_, fun handler c h => ?_⟩
  · have hsteady := steady_conn h
    refine ⟨hsteady.dispatched, fun ts => ?_⟩
    obtain ⟨hdrain, hall⟩ := hsteady.drainRead dispatches_slotDispatchLine ts
    exact hdrain.dispatched_written hall
  · have hsteady := steady_handle h
    refine ⟨hsteady.dispatched, fun ts => ?_⟩
    obtain ⟨hdrain, hall⟩ := hsteady.drainRead dispatches_clientDispatchLine ts
    exact hdrain.dispatched_written hall

/-- Two lines and a bit, read byte by byte. -/
theorem chunks_irrelevant_cut :
    (slotDrainRead (List.replicate 9 ⟨[], false, 1, false, []⟩)
      (Conn.accepted 1 true (text "ab\ncd\nef") false).link).lines = [text "ab", text "cd"] ∧
    (slotDrainRead (List.replicate 9 ⟨[], false, 1, false, []⟩)
      (Conn.accepted 1 true (text "ab\ncd\nef") false).link).Dispatched (text "ab\ncd\nef") := by
  refine ⟨by decide +kernel, ?_⟩
  exact (chunks_irrelevant.1 1 true (text "ab\ncd\nef") false _ .refl).2 (List.replicate 9 ⟨[], false, 1, false, []⟩)

end SimpleSatOps.Transport
