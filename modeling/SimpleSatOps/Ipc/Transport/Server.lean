import SimpleSatOps.Ipc.Transport.Link
import SimpleSatOps.Lib.Machine

/-!
# A client slot of the server

What the server does to one client, from `accept` until the slot is freed. Between the poll of a step and the turn of
the client, and between its turn and the pruning, other clients have theirs, and their events may make the application
send to this one.

* `Call`, `slotDispatchLine`, `slotDrainRead` : sending, and reading with what the event handler does;
* `Revents`, `pollSlot`, `serveSlot` : what `sso_ipc_server_step` does for a client;
* `Conn`, `Action`, `Conn.step` : the interleavings of the peer, the application and the steps;
* `ConnStep`, `connStep_of` : the ways a connection gets on, and that there are no others.
-/

namespace SimpleSatOps.Transport
open Ipc

/-- What a slot knows about its client. -/
structure SlotInfo where
  id : ℕ
  user : List UInt8
  role : List UInt8
deriving DecidableEq

/-- A line the application sends to this client, with the outcomes of the writes. -/
inductive Call where
  | broadcast (line : List UInt8) (ws : List WriteResult)
  | send (line : List UInt8) (ws : List WriteResult)
  | sendLossy (line : List UInt8) (ws ws' : List WriteResult)

/-- `sso_ipc_server_broadcast`, `sso_ipc_server_send` and `sso_ipc_server_send_lossy`, as far as they concern the slot
they find. -/
def Call.run : Call → Link SlotInfo → Link SlotInfo
  | .broadcast line ws, l => if l.dead then l else (l.queue .broadcast line).drainWrite ws
  | .send line ws, l => (l.queue .send line).drainWrite ws
  | .sendLossy line ws ws', l => ((l.drainWrite ws).queueLossy line).drainWrite ws'

/-- The identity in a `hello`. -/
def SlotInfo.capture (s : SlotInfo) (evt : Event) : SlotInfo :=
  let user := cstr (evt.str .user).1
  let role := cstr (evt.str .role).1
  { s with
    user := if user = [] then s.user else snprintf 64 user
    role := if role = [] then s.role else snprintf 16 role }

/-- `slot_dispatch_line`; the handler makes the calls `app`. -/
def slotDispatchLine (line : List UInt8) (app : List Call) (l : Link SlotInfo) : Link SlotInfo :=
  match decodeLine line with
  | none => l.log line
  | some evt =>
      let l : Link SlotInfo := { l.log line with own := if evt.type = .hello then l.own.capture evt else l.own }
      if l.handler then app.foldl (fun l (c : Call) => c.run l) l else l

/-- `slot_drain_read`. -/
def slotDrainRead (ts : List (ReadTurn Call)) (l : Link SlotInfo) : Link SlotInfo :=
  (l.drainRead slotDispatchLine ts).1

/-! ## A step of the server -/

structure Revents where
  pollIn : Bool
  pollOut : Bool
  hup : Bool
  err : Bool
deriving DecidableEq

/-- What `poll` reports for a client: a closed peer is a hang-up, and there is something to read as well. -/
def pollSlot {ω : Type} (writable err : Bool) (l : Link ω) : Revents where
  pollIn := l.sock.unread ≠ [] || l.sock.closed
  pollOut := writable && l.writeBuf ≠ []
  hup := l.sock.closed
  err := err

def markHangup {ω : Type} (rev : Revents) (l : Link ω) : Link ω := if rev.err || rev.hup then l.drop .hangup else l

def slotRead (rev : Revents) (ts : List (ReadTurn Call)) (l : Link SlotInfo) : Link SlotInfo :=
  if !l.dead && rev.pollIn then slotDrainRead ts l else l

def slotWrite (rev : Revents) (ws : List WriteResult) (l : Link SlotInfo) : Link SlotInfo :=
  if !l.dead && rev.pollOut then l.drainWrite ws else l

/-- The turn of a client in `sso_ipc_server_step`. -/
def serveSlot (rev : Revents) (ts : List (ReadTurn Call)) (ws : List WriteResult) (l : Link SlotInfo) :
    Link SlotInfo :=
  slotWrite rev ws (slotRead rev ts (markHangup rev l))

/-- Where the server stands in a step, seen from the slot. -/
inductive Phase where
  | idle
  | polled (rev : Revents)
  | served
  | freed
deriving DecidableEq

structure Conn where
  link : Link SlotInfo
  phase : Phase

/-- A slot that was just allocated; the peer may have written before it was accepted. -/
def Conn.accepted (id : ℕ) (handler : Bool) (written : List UInt8) (closed : Bool) : Conn :=
  ⟨.new ⟨id, [], []⟩ handler ⟨written, written, closed, []⟩, .idle⟩

inductive Action where
  | peer (bs : List UInt8) (close : Bool)
  | call (c : Call)
  | poll (writable err : Bool)
  | serve (ts : List (ReadTurn Call)) (ws : List WriteResult)
  | prune

/-- The slot after one action; `none` where it does not occur. -/
def Conn.step (c : Conn) : Action → Option Conn
  | .peer bs close => some { c with link := { c.link with sock := c.link.sock.arrive bs close } }
  | .call x => if c.phase = .freed then none else some { c with link := x.run c.link }
  | .poll writable err =>
      match c.phase with
      | .idle => some { c with phase := .polled (pollSlot writable err c.link) }
      | _ => none
  | .serve ts ws =>
      match c.phase with
      | .polled rev => some ⟨serveSlot rev ts ws c.link, .served⟩
      | _ => none
  | .prune =>
      match c.phase with
      | .served => some { c with phase := if c.link.dead then .freed else .idle }
      | _ => none

/-- The ways a connection gets on. -/
inductive ConnStep (c : Conn) : Action → Conn → Prop
  | peer (bs : List UInt8) (close : Bool) :
      ConnStep c (.peer bs close) { c with link := { c.link with sock := c.link.sock.arrive bs close } }
  | call (x : Call) (hphase : c.phase ≠ .freed) : ConnStep c (.call x) { c with link := x.run c.link }
  | poll (writable err : Bool) (hphase : c.phase = .idle) :
      ConnStep c (.poll writable err) { c with phase := .polled (pollSlot writable err c.link) }
  | serve (ts : List (ReadTurn Call)) (ws : List WriteResult) (rev : Revents) (hphase : c.phase = .polled rev) :
      ConnStep c (.serve ts ws) ⟨serveSlot rev ts ws c.link, .served⟩
  | prune (hphase : c.phase = .served) : ConnStep c .prune { c with phase := if c.link.dead then .freed else .idle }

/-- There are no others. -/
theorem connStep_of {c c' : Conn} {a : Action} (hs : c.step a = some c') : ConnStep c a c' := by
  cases a with
  | peer bs close =>
      cases hs
      exact .peer bs close
  | call x =>
      unfold Conn.step at hs
      dsimp only at hs
      split_ifs at hs with hphase
      cases hs
      exact .call x hphase
  | poll writable err =>
      unfold Conn.step at hs
      dsimp only at hs
      split at hs
      · next hphase =>
          cases hs
          exact .poll writable err hphase
      · cases hs
  | serve ts ws =>
      unfold Conn.step at hs
      dsimp only at hs
      split at hs
      · next rev hphase =>
          cases hs
          exact .serve ts ws rev hphase
      · cases hs
  | prune =>
      unfold Conn.step at hs
      dsimp only at hs
      split at hs
      · next hphase =>
          cases hs
          exact .prune hphase
      · cases hs

/-! ## What sending and dispatching leave alone -/

theorem calls_run (c : Call) (l : Link SlotInfo) : Link.Calls l (c.run l) := by
  cases c with
  | broadcast line ws =>
      show Link.Calls l (if l.dead then l else (l.queue .broadcast line).drainWrite ws)
      split_ifs
      · exact .refl l
      · exact (Link.Calls.queue l _ line).trans (.drainWrite ws _)
  | send line ws => exact (Link.Calls.queue l _ line).trans (.drainWrite ws _)
  | sendLossy line ws ws' =>
      exact ((Link.Calls.drainWrite ws l).trans (.queueLossy _ line)).trans (.drainWrite ws' _)

theorem calls_foldl (app : List Call) (l : Link SlotInfo) :
    Link.Calls l (app.foldl (fun l (c : Call) => c.run l) l) := by
  induction app generalizing l with
  | nil => exact .refl l
  | cons c app ih => exact (calls_run c l).trans (ih _)

theorem dispatches_slotDispatchLine : Link.Dispatches slotDispatchLine := by
  intro line app l
  unfold slotDispatchLine
  cases decodeLine line with
  | none => exact .refl _
  | some evt =>
      have hown := Link.Calls.own (l.log line) (if evt.type = .hello then l.own.capture evt else l.own)
      dsimp only
      by_cases hh : (l.log line).handler = true
      · rw [if_pos hh]
        exact hown.trans (calls_foldl app _)
      · rw [if_neg hh]
        exact hown

end SimpleSatOps.Transport
