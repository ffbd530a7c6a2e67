import SimpleSatOps.Ipc.Transport.Server

/-!
# The client handle

* `Send`, `clientDispatchLine`, `clientDrainRead` : sending, and reading with what the event handler does;
* `serveClient` : what `sso_ipc_client_step` does after its poll;
* `Handle`, `HandleAction`, `Handle.step` : the interleavings of the server, the application and the steps;
* `HandleStep`, `handleStep_of` : the ways a handle gets on, and that there are no others.
-/

namespace SimpleSatOps.Transport
open Ipc

/-- A line the application sends, with the outcomes of the writes. -/
structure Send where
  line : List UInt8
  ws : List WriteResult

/-- `sso_ipc_client_send`. -/
def Send.run (x : Send) (l : Link Unit) : Link Unit :=
  if l.dead then l
  else if l.HasRoom x.line then (l.append .send x.line).drainWrite x.ws
  else l.refuse .send x.line

/-- What `client_drain_read` does with a line; the handler makes the calls `app`. -/
def clientDispatchLine (line : List UInt8) (app : List Send) (l : Link Unit) : Link Unit :=
  if l.handler then
    match decodeLine line with
    | none => l.log line
    | some _ => app.foldl (fun l (x : Send) => x.run l) (l.log line)
  else l.log line

/-- `client_drain_read`, with whether it returns 1. -/
def clientDrainRead (ts : List (ReadTurn Send)) (l : Link Unit) : Link Unit × Bool := l.drainRead clientDispatchLine ts

def clientRead (rev : Revents) (ts : List (ReadTurn Send)) (l : Link Unit) : Link Unit × Bool :=
  if rev.pollIn then clientDrainRead ts l else (l, false)

/-- `sso_ipc_client_step` after the poll. -/
def serveClient (rev : Revents) (ts : List (ReadTurn Send)) (ws : List WriteResult) (l : Link Unit) : Link Unit :=
  if rev.err || rev.hup then l.drop .hangup
  else if (clientRead rev ts l).2 then (clientRead rev ts l).1
  else if rev.pollOut then (clientRead rev ts l).1.drainWrite ws
  else (clientRead rev ts l).1

/-- The handle, and what the poll of the current step has reported. -/
structure Handle where
  link : Link Unit
  polled : Option Revents

/-- A handle that was just connected. -/
def Handle.connected (handler : Bool) : Handle := ⟨.new () handler ⟨[], [], false, []⟩, none⟩

inductive HandleAction where
  | peer (bs : List UInt8) (close : Bool)
  | send (x : Send)
  | poll (writable err : Bool)
  | serve (ts : List (ReadTurn Send)) (ws : List WriteResult)

/-- The handle after one action; a step does nothing once the connection is gone. -/
def Handle.step (c : Handle) : HandleAction → Option Handle
  | .peer bs close => some { c with link := { c.link with sock := c.link.sock.arrive bs close } }
  | .send x => if c.polled = none then some { c with link := x.run c.link } else none
  | .poll writable err =>
      if c.polled = none ∧ c.link.dead = false then some { c with polled := some (pollSlot writable err c.link) }
      else none
  | .serve ts ws => c.polled.map fun rev => ⟨serveClient rev ts ws c.link, none⟩

/-- The ways a handle gets on. -/
inductive HandleStep (c : Handle) : HandleAction → Handle → Prop
  | peer (bs : List UInt8) (close : Bool) :
      HandleStep c (.peer bs close) { c with link := { c.link with sock := c.link.sock.arrive bs close } }
  | send (x : Send) (hpolled : c.polled = none) : HandleStep c (.send x) { c with link := x.run c.link }
  | poll (writable err : Bool) (hpolled : c.polled = none) (hdead : c.link.dead = false) :
      HandleStep c (.poll writable err) { c with polled := some (pollSlot writable err c.link) }
  | serve (ts : List (ReadTurn Send)) (ws : List WriteResult) (rev : Revents) (hpolled : c.polled = some rev) :
      HandleStep c (.serve ts ws) ⟨serveClient rev ts ws c.link, none⟩

/-- There are no others. -/
theorem handleStep_of {c c' : Handle} {a : HandleAction} (hs : c.step a = some c') : HandleStep c a c' := by
  cases a with
  | peer bs close =>
      cases hs
      exact .peer bs close
  | send x =>
      unfold Handle.step at hs
      dsimp only at hs
      split_ifs at hs with hpolled
      cases hs
      exact .send x hpolled
  | poll writable err =>
      unfold Handle.step at hs
      dsimp only at hs
      split_ifs at hs with hpolled
      cases hs
      exact .poll writable err hpolled.1 hpolled.2
  | serve ts ws =>
      obtain ⟨rev, hpolled, rfl⟩ := Option.map_eq_some_iff.mp hs
      exact .serve ts ws rev hpolled

theorem calls_send (x : Send) (l : Link Unit) : Link.Calls l (x.run l) := by
  unfold Send.run
  split_ifs
  · exact .refl l
  · exact (Link.Calls.append l .send x.line).trans (.drainWrite x.ws _)
  · exact .refuse l .send x.line

theorem calls_sends (app : List Send) (l : Link Unit) :
    Link.Calls l (app.foldl (fun l (x : Send) => x.run l) l) := by
  induction app generalizing l with
  | nil => exact .refl l
  | cons x app ih => exact (calls_send x l).trans (ih _)

theorem dispatches_clientDispatchLine : Link.Dispatches clientDispatchLine := by
  intro line app l
  unfold clientDispatchLine
  split_ifs
  · cases decodeLine line with
    | none => exact .refl _
    | some evt => exact calls_sends app _
  · exact .refl _

end SimpleSatOps.Transport
