import SimpleSatOps.Ipc.Decode
import SimpleSatOps.Lib.Framing

/-!
# One end of a connection

What a client slot of the server and the handle of a client have in common: a socket, a buffer for each direction, and
the mark that the connection is to be dropped.

* `Sock`, `Sock.read`, `Sock.write` : the socket, and what the system calls do with it;
* `Link` : the end of a connection, with what it has dispatched and been asked to send;
* `dispatchLoop`, `drainRead`, `drainWrite`, `queue`, `queueLossy` : the loops and the two ways to queue a line;
* `Framed`, `framed_drainRead` : what was dispatched and what the buffer holds, by the bytes that were read;
* `Whole`, `whole_queue`, ... : what was sent and what the buffer holds, by the lines that were queued.
-/

namespace SimpleSatOps.Transport
open Ipc JsonText

/-- `SSO_IPC_READ_BUF`. -/
def readBufSize : ℕ := 8192

/-- `SSO_IPC_WRITE_BUF`. -/
def writeBufSize : ℕ := 32768

def newline : UInt8 := byte '\n'

/-- `sso_event_decode` on a line in the read buffer. -/
def decodeLine (line : List UInt8) : Option Event := decode (getField (cstr line))

/-! ## Sockets -/

/-- A stream socket as its owner sees it: what the peer has written to it so far and how much of that is still to be
read, whether the peer has closed its end, and what the peer gets from us. -/
structure Sock where
  written : List UInt8
  unread : List UInt8
  closed : Bool
  received : List UInt8
deriving DecidableEq

/-- The peer writes, and closes its end if `close`; after that it writes no more. -/
def Sock.arrive (k : Sock) (bs : List UInt8) (close : Bool) : Sock :=
  if k.closed then k else { k with written := k.written ++ bs, unread := k.unread ++ bs, closed := close }

/-- What happens around one `read`: what the peer does before it, how many bytes it gives at most, whether it fails
once there is nothing left to read, and what the event handler does with each line of this chunk. -/
structure ReadTurn (κ : Type) where
  arrive : List UInt8
  close : Bool
  size : ℕ
  fails : Bool
  app : List (List κ)

/-- Nothing more happens; `read` gives all it can. -/
def ReadTurn.quiet (κ : Type) : ReadTurn κ := ⟨[], false, readBufSize, false, []⟩

inductive ReadResult where
  | data (bs : List UInt8)
  | eof
  | again
  | error
deriving DecidableEq

/-- `read(fd, buf, room)`. -/
def Sock.read {κ : Type} (room : ℕ) (t : ReadTurn κ) (k : Sock) : ReadResult × Sock :=
  let k := k.arrive t.arrive t.close
  if k.unread ≠ [] then
    let n := min room (max 1 t.size)
    (.data (k.unread.take n), { k with unread := k.unread.drop n })
  else if t.fails then (.error, k)
  else if k.closed then (.eof, k)
  else (.again, k)

/-- The outcome of a `write`: some bytes were taken, none can be now, or it fails. -/
inductive WriteResult where
  | took (n : ℕ)
  | blocked
  | failed
deriving DecidableEq

/-! ## Links -/

/-- What sets `dead`, or clears `connected`. -/
inductive Cause where
  | overlong | eof | readError | writeError | overflow | hangup
deriving DecidableEq

/-- The call a line is sent by. -/
inductive Via where
  | broadcast | send | sendLossy
deriving DecidableEq

/-- What becomes of a line to be sent: it is queued, left out (`send_lossy`), or there is no room for it. -/
inductive Fate where
  | queued | skipped | refused
deriving DecidableEq

structure Entry where
  via : Via
  line : List UInt8
  fate : Fate
deriving DecidableEq

/-- One end of a connection, with data `own` of its owner and whether `on_event` is set. `readBuf` is
`read_buf[0 .. read_len)`, `writeBuf` is `write_buf[0 .. write_len)`; the flag is the list of what has set it. `lines`,
`events` and `sent` are the history: the lines that were split off, the events the handler was called with, the lines
that were to be sent. -/
structure Link (ω : Type) where
  own : ω
  handler : Bool
  sock : Sock
  readBuf : List UInt8
  writeBuf : List UInt8
  drops : List Cause
  lines : List (List UInt8)
  events : List Event
  sent : List Entry

namespace Link
variable {ω κ : Type}

/-- `slot->dead`, or `!cli->connected`. -/
def dead (l : Link ω) : Bool := !l.drops.isEmpty

def drop (l : Link ω) (c : Cause) : Link ω := { l with drops := l.drops ++ [c] }

theorem dead_iff {l : Link ω} : l.dead = true ↔ l.drops ≠ [] := by simp [dead]

theorem dead_drop (l : Link ω) (c : Cause) : (l.drop c).dead = true :=
  dead_iff.mpr (List.append_ne_nil_of_right_ne_nil _ (List.cons_ne_nil _ _))

/-- The end of a connection that was just made: nothing is read, queued or sent. -/
def new (own : ω) (handler : Bool) (k : Sock) : Link ω where
  own := own
  handler := handler
  sock := k
  readBuf := []
  writeBuf := []
  drops := []
  lines := []
  events := []
  sent := []

/-- `slot_drain_write`, `client_drain_write`. -/
def drainWrite : List WriteResult → Link ω → Link ω
  | [], l => l
  | w :: ws, l =>
      if l.writeBuf = [] then l
      else match w with
        | .blocked => l
        | .failed => l.drop .writeError
        | .took n =>
            let n := min n l.writeBuf.length
            if n = 0 then l.drop .writeError
            else drainWrite ws { l with
              writeBuf := l.writeBuf.drop n
              sock := { l.sock with received := l.sock.received ++ l.writeBuf.take n } }

/-- Whether a line fits the write buffer. -/
def HasRoom (l : Link ω) (line : List UInt8) : Prop := l.writeBuf.length + (cstr line).length ≤ writeBufSize

instance (l : Link ω) (line : List UInt8) : Decidable (l.HasRoom line) := inferInstanceAs (Decidable (_ ≤ _))

def append (l : Link ω) (via : Via) (line : List UInt8) : Link ω :=
  { l with writeBuf := l.writeBuf ++ cstr line, sent := l.sent ++ [⟨via, cstr line, .queued⟩] }

/-- There is no room for a line that must not be left out. -/
def refuse (l : Link ω) (via : Via) (line : List UInt8) : Link ω :=
  { l.drop .overflow with sent := l.sent ++ [⟨via, cstr line, .refused⟩] }

/-- `slot_queue`. -/
def queue (l : Link ω) (via : Via) (line : List UInt8) : Link ω :=
  if l.HasRoom line then l.append via line else l.refuse via line

/-- `slot_queue_lossy`. -/
def queueLossy (l : Link ω) (line : List UInt8) : Link ω :=
  if l.HasRoom line then l.append .sendLossy line
  else { l with sent := l.sent ++ [⟨.sendLossy, cstr line, .skipped⟩] }

/-- What the handler is called with for a line. -/
def handled (l : Link ω) (line : List UInt8) : List Event := if l.handler then (decodeLine line).toList else []

/-- The history after a line. -/
def log (l : Link ω) (line : List UInt8) : Link ω :=
  { l with lines := l.lines ++ [line], events := l.events ++ l.handled line }

/-- The inner loop: the first line in the buffer is dispatched and the rest moved down. -/
def dispatchLoop (dispatch : List UInt8 → List κ → Link ω → Link ω) : ℕ → List (List κ) → Link ω → Link ω
  | 0, _, l => l
  | n + 1, app, l =>
      if newline ∈ l.readBuf then
        let line := l.readBuf.takeWhile (· ≠ newline)
        let l := dispatch line (app.headD []) l
        dispatchLoop dispatch n app.tail { l with readBuf := l.readBuf.drop (line.length + 1) }
      else l

/-- `slot_drain_read`, `client_drain_read`, with whether it returns 1. -/
def readLoop (dispatch : List UInt8 → List κ → Link ω → Link ω) : ℕ → List (ReadTurn κ) → Link ω → Link ω × Bool
  | 0, _, l => (l, false)
  | n + 1, ts, l =>
      if readBufSize - 1 ≤ l.readBuf.length then (l.drop .overlong, true)
      else
        let t := ts.headD (.quiet κ)
        match l.sock.read (readBufSize - l.readBuf.length - 1) t with
        | (.eof, k) => ({ l with sock := k }.drop .eof, true)
        | (.error, k) => ({ l with sock := k }.drop .readError, true)
        | (.again, k) => ({ l with sock := k }, false)
        | (.data bs, k) =>
            let l := { l with sock := k, readBuf := l.readBuf ++ bs }
            readLoop dispatch n ts.tail (dispatchLoop dispatch l.readBuf.length t.app l)

/-- Every read takes a byte, so the bytes there are and those that will come are fuel enough. -/
def readFuel (ts : List (ReadTurn κ)) (l : Link ω) : ℕ :=
  l.sock.unread.length + (ts.map fun t => t.arrive.length).sum + 1

def drainRead (dispatch : List UInt8 → List κ → Link ω → Link ω) (ts : List (ReadTurn κ)) (l : Link ω) :
    Link ω × Bool :=
  readLoop dispatch (readFuel ts l) ts l

/-! ## What a call of the application does to reading -/

/-- The read side is left alone, and the link is dropped for a failed send at most. -/
structure Calls (l l' : Link ω) : Prop where
  handler : l'.handler = l.handler
  written : l'.sock.written = l.sock.written
  unread : l'.sock.unread = l.sock.unread
  closed : l'.sock.closed = l.sock.closed
  readBuf : l'.readBuf = l.readBuf
  lines : l'.lines = l.lines
  events : l'.events = l.events
  drops : ∃ cs, l'.drops = l.drops ++ cs ∧ ∀ c ∈ cs, c = .writeError ∨ c = .overflow

namespace Calls
variable {l l' l'' : Link ω}

theorem refl (l : Link ω) : Calls l l where
  handler := rfl
  written := rfl
  unread := rfl
  closed := rfl
  readBuf := rfl
  lines := rfl
  events := rfl
  drops := ⟨[], (List.append_nil _).symm, fun _ h => absurd h List.not_mem_nil⟩

theorem trans (h : Calls l l') (h' : Calls l' l'') : Calls l l'' where
  handler := h'.handler.trans h.handler
  written := h'.written.trans h.written
  unread := h'.unread.trans h.unread
  closed := h'.closed.trans h.closed
  readBuf := h'.readBuf.trans h.readBuf
  lines := h'.lines.trans h.lines
  events := h'.events.trans h.events
  drops := by
    obtain ⟨cs, hcs, hc⟩ := h.drops
    obtain ⟨cs', hcs', hc'⟩ := h'.drops
    refine ⟨cs ++ cs', by rw [hcs', hcs, List.append_assoc], fun c hmem => ?_⟩
    exact (List.mem_append.mp hmem).elim (hc c) (hc' c)

theorem drop (l : Link ω) {c : Cause} (hc : c = .writeError ∨ c = .overflow) : Calls l (l.drop c) :=
  { refl l with drops := ⟨[c], rfl, fun _ h => List.mem_singleton.mp h ▸ hc⟩ }

theorem own (l : Link ω) (o : ω) : Calls l { l with own := o } := { refl l with }

theorem append (l : Link ω) (via : Via) (line : List UInt8) : Calls l (l.append via line) :=
  { refl (l.append via line) with }

theorem refuse (l : Link ω) (via : Via) (line : List UInt8) : Calls l (l.refuse via line) :=
  { drop l (.inr rfl) with }

theorem drainWrite (ws : List WriteResult) (l : Link ω) : Calls l (l.drainWrite ws) := by
  induction ws generalizing l with
  | nil => exact refl l
  | cons w ws ih =>
      unfold Link.drainWrite
      split_ifs
      · exact refl l
      · cases w with
        | blocked => exact refl l
        | failed => exact drop l (.inl rfl)
        | took n =>
            simp only
            split_ifs
            · exact drop l (.inl rfl)
            · refine trans ?_ (ih _)
              exact { refl l with }

theorem queue (l : Link ω) (via : Via) (line : List UInt8) : Calls l (l.queue via line) := by
  unfold Link.queue
  split_ifs
  · exact append l via line
  · exact refuse l via line

theorem queueLossy (l : Link ω) (line : List UInt8) : Calls l (l.queueLossy line) := by
  unfold Link.queueLossy
  split_ifs
  · exact append l .sendLossy line
  · exact { refl l with }

end Calls

/-! ## Reading -/

/-- A line is dispatched once; what the handler does leaves the read side alone. -/
def Dispatches (dispatch : List UInt8 → List κ → Link ω → Link ω) : Prop :=
  ∀ line app l, Calls (l.log line) (dispatch line app l)

/-- What was dispatched and what the buffer holds, by the bytes `c` that were read. -/
structure Framed (l : Link ω) (c : List UInt8) : Prop where
  written : l.sock.written = c ++ l.sock.unread
  reads : Framing.Reads newline (readBufSize - 1) c l.lines l.readBuf
  events : l.events = l.lines.flatMap l.handled

namespace Framed
variable {l l' : Link ω} {c : List UInt8}

theorem new (own : ω) (handler : Bool) (k : Sock) (h : k.written = k.unread) : Framed (Link.new own handler k) [] where
  written := h
  reads := .nil _
  events := rfl

theorem calls (h : Framed l c) (hc : Calls l l') : Framed l' c where
  written := by rw [hc.written, hc.unread, h.written]
  reads := by rw [hc.lines, hc.readBuf]; exact h.reads
  events := by
    have hh : l'.handled = l.handled := by
      funext line
      unfold handled
      rw [hc.handler]
    rw [hc.events, hc.lines, hh, h.events]

theorem drop (h : Framed l c) (d : Cause) : Framed (l.drop d) c := ⟨h.written, h.reads, h.events⟩

theorem arrive (h : Framed l c) (bs : List UInt8) (close : Bool) :
    Framed { l with sock := l.sock.arrive bs close } c where
  written := by
    show (l.sock.arrive bs close).written = c ++ (l.sock.arrive bs close).unread
    unfold Sock.arrive
    split_ifs
    · exact h.written
    · show l.sock.written ++ bs = c ++ (l.sock.unread ++ bs)
      rw [h.written, List.append_assoc]
  reads := h.reads
  events := h.events

end Framed

/-- After the inner loop. -/
def split (l : Link ω) : Link ω :=
  { l with
    lines := l.lines ++ Framing.lines newline l.readBuf
    events := l.events ++ (Framing.lines newline l.readBuf).flatMap l.handled
    readBuf := Framing.rest newline l.readBuf }

theorem split_of_free {l : Link ω} (h : newline ∉ l.readBuf) : l.split = l := by
  unfold split
  rw [Framing.lines_of_free h, Framing.rest_of_free h, List.append_nil, List.flatMap_nil, List.append_nil]

theorem calls_split {l l' : Link ω} (h : Calls l l') : Calls l.split l'.split where
  handler := h.handler
  written := h.written
  unread := h.unread
  closed := h.closed
  readBuf := congrArg (Framing.rest newline) h.readBuf
  lines := by
    show _ ++ _ = _ ++ _
    rw [h.lines, h.readBuf]
  events := by
    have hh : l'.handled = l.handled := by
      funext line
      unfold handled
      rw [h.handler]
    show _ ++ _ = _ ++ _
    rw [h.events, h.readBuf, hh]
  drops := h.drops

theorem calls_dispatchLoop {dispatch : List UInt8 → List κ → Link ω → Link ω} (hd : Dispatches dispatch) (n : ℕ)
    (app : List (List κ)) (l : Link ω) (hn : l.readBuf.length ≤ n) :
    Calls l.split (dispatchLoop dispatch n app l) := by
  induction n generalizing app l with
  | zero =>
      have hnil : l.readBuf = [] := List.eq_nil_of_length_eq_zero (Nat.le_zero.mp hn)
      rw [split_of_free (hnil ▸ List.not_mem_nil)]
      exact Calls.refl l
  | succ n ih =>
      unfold dispatchLoop
      split_ifs with hmem
      · obtain ⟨w, v, hwv, hw⟩ := List.eq_append_cons_of_mem hmem
        have hline : l.readBuf.takeWhile (· ≠ newline) = w := by
          rw [hwv, List.takeWhile_append_of_pos fun c hc => decide_eq_true (ne_of_mem_of_not_mem hc hw),
            List.takeWhile_cons_of_neg (by simp), List.append_nil]
        simp only [hline]
        have hcall := hd w (app.headD []) l
        have hbuf : (dispatch w (app.headD []) l).readBuf.drop (w.length + 1) = v := by
          rw [hcall.readBuf]
          show l.readBuf.drop (w.length + 1) = v
          rw [hwv, ← List.drop_drop, List.drop_left, List.drop_one, List.tail_cons]
        rw [hbuf]
        refine Calls.trans ?_ (ih app.tail _ ?_)
        · -- One line more is split off, the others come from the rest of the buffer.
          have hv : Calls { l.log w with readBuf := v } { dispatch w (app.headD []) l with readBuf := v } :=
            { hcall with readBuf := rfl }
          have hsplit : l.split = { l.log w with readBuf := v }.split := by
            unfold split log
            simp only [hwv, Framing.lines_line_cons hw, Framing.rest_append_cons, List.append_assoc,
              List.singleton_append, List.flatMap_cons]
            rfl
          rw [hsplit]
          exact calls_split hv
        · have hlen := congrArg List.length hwv
          rw [List.length_append, List.length_cons] at hlen
          show v.length ≤ n
          omega
      · rw [split_of_free hmem]
        exact Calls.refl l

end Link

/-- What a `read` gives, by what it finds queued. -/
theorem Sock.read_cases {κ : Type} {room : ℕ} (hroom : 0 < room) (t : ReadTurn κ) (k : Sock) :
    (∃ n, 0 < n ∧ n ≤ room ∧ (k.arrive t.arrive t.close).unread ≠ [] ∧
      k.read room t = (.data ((k.arrive t.arrive t.close).unread.take n),
        { k.arrive t.arrive t.close with unread := (k.arrive t.arrive t.close).unread.drop n })) ∨
    ((k.arrive t.arrive t.close).unread = [] ∧
      (k.read room t = (.error, k.arrive t.arrive t.close) ∨
        (k.arrive t.arrive t.close).closed = true ∧ k.read room t = (.eof, k.arrive t.arrive t.close) ∨
        k.read room t = (.again, k.arrive t.arrive t.close))) := by
  unfold Sock.read
  simp only
  split_ifs with hunread hfails hclosed
  · exact .inl ⟨_, lt_min hroom (lt_max_of_lt_left one_pos), min_le_left _ _, hunread, rfl⟩
  · exact .inr ⟨not_not.mp hunread, .inl rfl⟩
  · exact .inr ⟨not_not.mp hunread, .inr (.inl ⟨hclosed, rfl⟩)⟩
  · exact .inr ⟨not_not.mp hunread, .inr (.inr rfl)⟩

theorem Sock.received_arrive (k : Sock) (bs : List UInt8) (close : Bool) :
    (k.arrive bs close).received = k.received := by
  unfold Sock.arrive
  split_ifs <;> rfl

theorem Sock.written_prefix_arrive (k : Sock) (bs : List UInt8) (close : Bool) :
    k.written <+: (k.arrive bs close).written := by
  unfold Sock.arrive
  split_ifs
  · exact List.prefix_rfl
  · exact List.prefix_append _ _

theorem Sock.length_unread_arrive_le (k : Sock) (bs : List UInt8) (close : Bool) :
    (k.arrive bs close).unread.length ≤ k.unread.length + bs.length := by
  unfold Sock.arrive
  split_ifs
  · exact Nat.le_add_right _ _
  · exact (List.length_append).le

namespace Link
variable {ω κ : Type} {l : Link ω} {c : List UInt8}

/-- How a drain of the read side ends, and what drops the link then. -/
inductive Outcome (l : Link ω) : Bool → List Cause → Prop
  | again (hunread : l.sock.unread = []) (hroom : l.readBuf.length < readBufSize - 1) : Outcome l false []
  | overlong (hfull : readBufSize - 1 ≤ l.readBuf.length) : Outcome l true [.overlong]
  | eof (hunread : l.sock.unread = []) (hclosed : l.sock.closed = true)
      (hroom : l.readBuf.length < readBufSize - 1) : Outcome l true [.eof]
  | readError (hunread : l.sock.unread = []) (hroom : l.readBuf.length < readBufSize - 1) :
      Outcome l true [.readError]

/-- The lines of a chunk are split off. -/
theorem Framed.chunk (h : Framed l c) {n : ℕ} (hn : l.readBuf.length + n ≤ readBufSize - 1) :
    Framed { l with
      sock := { l.sock with unread := l.sock.unread.drop n }
      readBuf := l.readBuf ++ l.sock.unread.take n }.split (c ++ l.sock.unread.take n) where
  written := by
    show l.sock.written = _ ++ l.sock.unread.drop n
    rw [List.append_assoc, List.take_append_drop]
    exact h.written
  reads := by
    refine h.reads.append ?_
    have hle : (l.sock.unread.take n).length ≤ n := List.length_take_le n _
    omega
  events := by
    show _ ++ _ = List.flatMap _ (_ ++ _)
    rw [List.flatMap_append, h.events]
    rfl

theorem readLoop_spec {dispatch : List UInt8 → List κ → Link ω → Link ω} (hd : Dispatches dispatch) (n : ℕ)
    (ts : List (ReadTurn κ)) (l : Link ω) (c : List UInt8) (h : Framed l c) (hn : readFuel ts l ≤ n) :
    ∃ c' cs last, Framed (readLoop dispatch n ts l).1 c' ∧
      (readLoop dispatch n ts l).1.drops = l.drops ++ cs ++ last ∧ (∀ d ∈ cs, d = .writeError ∨ d = .overflow) ∧
      Outcome (readLoop dispatch n ts l).1 (readLoop dispatch n ts l).2 last := by
  induction n generalizing ts l c with
  | zero => exact absurd hn (Nat.not_le.mpr (Nat.succ_pos _))
  | succ n ih =>
      unfold readLoop
      split_ifs with hfull
      · exact ⟨c, [], [.overlong], h.drop _, by rw [List.append_nil]; rfl, fun _ hm => absurd hm List.not_mem_nil,
          .overlong hfull⟩
      · have hroom : l.readBuf.length < readBufSize - 1 := Nat.lt_of_not_le hfull
        simp only
        generalize ht : ts.headD (.quiet κ) = t
        have harr := h.arrive t.arrive t.close
        rcases l.sock.read_cases (show 0 < readBufSize - l.readBuf.length - 1 by omega) t with
          ⟨m, hpos, hm, hne, hread⟩ | ⟨hnil, hread⟩
        · -- A chunk: its lines are dispatched, and there is less to read than before.
          rw [hread]
          simp only
          generalize hk : l.sock.arrive t.arrive t.close = k at *
          have hchunk := harr.chunk (n := m) (by simp only; omega)
          simp only at hchunk
          have hcalls := calls_dispatchLoop hd (l.readBuf ++ k.unread.take m).length t.app
            { l with sock := { k with unread := k.unread.drop m }, readBuf := l.readBuf ++ k.unread.take m } le_rfl
          have hfuel : readFuel ts.tail
              (dispatchLoop dispatch (l.readBuf ++ k.unread.take m).length t.app
                { l with sock := { k with unread := k.unread.drop m }, readBuf := l.readBuf ++ k.unread.take m }) ≤
              n := by
            unfold readFuel
            rw [hcalls.unread]
            show (k.unread.drop m).length + _ + 1 ≤ n
            have hlen := l.sock.length_unread_arrive_le t.arrive t.close
            rw [hk] at hlen
            have hlt := List.length_pos_of_ne_nil hne
            unfold readFuel at hn
            rw [List.length_drop]
            cases ts with
            | nil =>
                subst ht
                simp only [ReadTurn.quiet, List.headD_nil, List.length_nil, List.map_nil, List.sum_nil,
                  List.tail_nil] at *
                omega
            | cons t' ts =>
                subst ht
                simp only [List.headD_cons, List.map_cons, List.sum_cons, List.tail_cons] at *
                omega
          obtain ⟨c', cs, last, hframed, hdrops, hcs, hout⟩ := ih ts.tail _ _ (hchunk.calls hcalls) hfuel
          obtain ⟨cs₀, hcs₀, hsend⟩ := hcalls.drops
          refine ⟨c', cs₀ ++ cs, last, hframed, ?_, fun d hmem => ?_, hout⟩
          · rw [hdrops, hcs₀]
            simp only [split, List.append_assoc]
          · exact (List.mem_append.mp hmem).elim (hsend d) (hcs d)
        · have hnone : ∀ d ∈ ([] : List Cause), d = .writeError ∨ d = .overflow :=
            fun _ hmem => absurd hmem List.not_mem_nil
          rcases hread with hread | ⟨hclosed, hread⟩ | hread
          · rw [hread]
            exact ⟨c, [], [.readError], harr.drop _, by rw [List.append_nil]; rfl, hnone, .readError hnil hroom⟩
          · rw [hread]
            exact ⟨c, [], [.eof], harr.drop _, by rw [List.append_nil]; rfl, hnone, .eof hnil hclosed hroom⟩
          · rw [hread]
            exact ⟨c, [], [], harr, by simp, hnone, .again hnil hroom⟩

/-- A drain reads everything there is, or the link is dropped for a line that is too long. -/
theorem drainRead_spec {dispatch : List UInt8 → List κ → Link ω → Link ω} (hd : Dispatches dispatch)
    (ts : List (ReadTurn κ)) (h : Framed l c) :
    ∃ c' cs last, Framed (drainRead dispatch ts l).1 c' ∧ (drainRead dispatch ts l).1.drops = l.drops ++ cs ++ last ∧
      (∀ d ∈ cs, d = .writeError ∨ d = .overflow) ∧
      Outcome (drainRead dispatch ts l).1 (drainRead dispatch ts l).2 last :=
  readLoop_spec hd _ ts l c h le_rfl

/-- What the dispatch of a line keeps, and what does not depend on the read side, a drain keeps. -/
theorem readLoop_induct {P : Link ω → Prop} {dispatch : List UInt8 → List κ → Link ω → Link ω}
    (hd : ∀ line app l, P l → P (dispatch line app l)) (hdrop : ∀ l c, P l → P (l.drop c))
    (hread : ∀ l (k : Sock) buf, P l → k.received = l.sock.received → P { l with sock := k, readBuf := buf })
    (n : ℕ) (ts : List (ReadTurn κ)) (l : Link ω) (h : P l) : P (readLoop dispatch n ts l).1 := by
  have hloop : ∀ (n : ℕ) (app : List (List κ)) (l : Link ω), P l → P (dispatchLoop dispatch n app l) := by
    intro n
    induction n with
    | zero => exact fun _ _ h => h
    | succ n ih =>
        intro app l h
        unfold dispatchLoop
        split_ifs
        · exact ih _ _ (hread _ _ _ (hd _ _ _ h) rfl)
        · exact h
  induction n generalizing ts l with
  | zero => exact h
  | succ n ih =>
      unfold readLoop
      split_ifs with hfull
      · exact hdrop _ _ h
      · simp only
        generalize ts.headD (.quiet κ) = t
        have hk := l.sock.received_arrive t.arrive t.close
        rcases l.sock.read_cases (show 0 < readBufSize - l.readBuf.length - 1 by omega) t with
          ⟨m, -, -, -, heq⟩ | ⟨-, heq⟩
        · rw [heq]
          exact ih _ _ (hloop _ _ _ (hread _ _ _ h hk))
        · rcases heq with heq | ⟨-, heq⟩ | heq <;> rw [heq]
          · exact hdrop _ _ (hread _ _ _ h hk)
          · exact hdrop _ _ (hread _ _ _ h hk)
          · exact hread _ _ _ h hk

end Link

end SimpleSatOps.Transport
