import SimpleSatOps.Lib.Double
import SimpleSatOps.Lib.Machine

/-!
# The rotator worker

The main thread posts motion requests in two slots, one for SET and one for STOP, and the worker takes both at once,
writes STOP, SET and STATUS in this order, and publishes the reply to STATUS.

* `Motion`, `Wire` : requests, and what is written to the controller;
* `Worker`, `Main`, `RotatorAsync` : where the two threads stand, and what they share;
* `latch`, `writeNext`, `publish` : the steps of `rotator_worker`;
* `Action`, `RotatorAsync.step` : the interleavings;
* `Stepped`, `stepped` : the ways a step gets on, and that there are no others.
-/

namespace SimpleSatOps.Rotator

inductive Motion where
  | stop
  | set (az el : Double)
deriving DecidableEq

/-- A command on the serial line; a motion command with the number of the request it answers. -/
inductive Wire where
  | motion (idx : ℕ) (m : Motion)
  | status
deriving DecidableEq

/-- Where the worker stands: at the top of its loop; with commands of this iteration still to be written; reading the
reply to the STATUS that was written as number `pos`; about to publish the reply, `none` when it was not OK. `seen` is
the number of requests there were when the iteration began. -/
inductive Worker where
  | waiting
  | writing (seen : ℕ) (doStop : Option ℕ) (doSet : Option (ℕ × Double × Double)) (doStatus : Bool)
  | reading (seen pos : ℕ)
  | replied (seen pos : ℕ) (reply : Option (Double × Double)) (mono : ℕ)
  | exited
deriving DecidableEq

/-- Where the main thread stands in `stop_tracking`; `n` is the number of its STOP. -/
inductive Main where
  | free
  | posted (n : ℕ)
  | kicked (n : ℕ)
  | waiting (n tEntry : ℕ)
  | returned (n : ℕ) (ok : Bool)
deriving DecidableEq

/-- `antenna_rotator_async_t`, with the threads and what has happened: the requests, and what was written to the
controller. `setIdx` and `stopIdx` are the numbers of the requests in the slots; `snapQuery` and `snapSeen` belong to
the STATUS whose reply the snapshot holds. Times are what the monotonic clock showed. -/
structure RotatorAsync where
  setPending : Bool
  setAz : Double
  setEl : Double
  setIdx : ℕ
  stopCmdPending : Bool
  stopIdx : ℕ
  statusKickPending : Bool
  stopRequested : Bool
  snapAz : Double
  snapEl : Double
  snapOk : Bool
  snapLastGood : ℕ
  snapQuery : ℕ
  snapSeen : ℕ
  worker : Worker
  main : Main
  requests : List Motion
  wire : List Wire

namespace RotatorAsync

/-- `antenna_rotator_async_open`: a first STATUS is kicked. -/
def opened : RotatorAsync where
  setPending := false
  setAz := .zero
  setEl := .zero
  setIdx := 0
  stopCmdPending := false
  stopIdx := 0
  statusKickPending := true
  stopRequested := false
  snapAz := .zero
  snapEl := .zero
  snapOk := false
  snapLastGood := 0
  snapQuery := 0
  snapSeen := 0
  worker := .waiting
  main := .free
  requests := []
  wire := []

/-! ## The main thread -/

/-- `antenna_rotator_async_submit_set`. -/
def submitSet (s : RotatorAsync) (az el : Double) : RotatorAsync :=
  { s with
    setPending := true, setAz := az, setEl := el, setIdx := s.requests.length
    requests := s.requests ++ [.set az el] }

/-- `antenna_rotator_async_submit_stop`. -/
def submitStop (s : RotatorAsync) : RotatorAsync :=
  { s with stopCmdPending := true, stopIdx := s.requests.length, requests := s.requests ++ [.stop] }

/-- `antenna_rotator_async_kick_status`. -/
def kickStatus (s : RotatorAsync) : RotatorAsync := { s with statusKickPending := true }

/-- The loop of `antenna_rotator_async_wait_next_good_status` after a wake-up; `none` while it goes on. -/
def waitResult (s : RotatorAsync) (tEntry : ℕ) (timedOut : Bool) : Option Bool :=
  if s.snapLastGood ≤ tEntry && !s.stopRequested && !timedOut then none
  else some (tEntry < s.snapLastGood && !s.stopRequested)

/-! ## The worker -/

/-- The requests are taken under the lock; `elapsed` when the status period is over. -/
def latch (s : RotatorAsync) (elapsed : Bool) : RotatorAsync :=
  { s with
    stopCmdPending := false
    setPending := false
    statusKickPending := false
    worker := .writing s.requests.length (if s.stopCmdPending then some s.stopIdx else none)
      (if s.setPending then some (s.setIdx, s.setAz, s.setEl) else none) (s.statusKickPending || elapsed) }

/-- The next command of the iteration is written, or the iteration ends. -/
def writeNext (s : RotatorAsync) (seen : ℕ) :
    Option ℕ → Option (ℕ × Double × Double) → Bool → RotatorAsync
  | some n, doSet, doStatus =>
      { s with wire := s.wire ++ [.motion n .stop], worker := .writing seen none doSet doStatus }
  | none, some (n, az, el), doStatus =>
      { s with wire := s.wire ++ [.motion n (.set az el)], worker := .writing seen none none doStatus }
  | none, none, true => { s with wire := s.wire ++ [.status], worker := .reading seen s.wire.length }
  | none, none, false => { s with worker := .waiting }

/-- The reply is published under the lock; one that is not OK leaves the last position. -/
def publish (s : RotatorAsync) (seen pos : ℕ) (mono : ℕ) : Option (Double × Double) → RotatorAsync
  | some (az, el) =>
      { s with
        snapAz := az, snapEl := el, snapOk := true, snapLastGood := mono, snapQuery := pos, snapSeen := seen
        worker := .waiting }
  | none => { s with snapOk := false, worker := .waiting }

/-! ## Steps -/

inductive Action where
  | submitSet (az el : Double)
  | submitStop
  | kickStatus
  | close
  | stopTracking
  | stopKick
  | waitBegin
  | waitWake (timedOut : Bool)
  | latch (elapsed : Bool)
  | exit
  | write
  | reply (reply : Option (Double × Double)) (mono : ℕ)
  | publish

/-- The main thread is not inside `stop_tracking`. -/
def mainFree (s : RotatorAsync) : Bool :=
  match s.main with
  | .free | .returned _ _ => true
  | _ => false

/-- `stopTracking` to `waitWake` are the calls of `stop_tracking`, `latch` to `publish` the steps of
`rotator_worker`. -/
def step (s : RotatorAsync) : Action → Option RotatorAsync
  | .submitSet az el => if s.mainFree then some { s.submitSet az el with main := .free } else none
  | .submitStop => if s.mainFree then some { s.submitStop with main := .free } else none
  | .kickStatus => if s.mainFree then some { s.kickStatus with main := .free } else none
  | .close => if s.mainFree then some { s with stopRequested := true, main := .free } else none
  | .stopTracking => if s.mainFree then some { s.submitStop with main := .posted s.requests.length } else none
  | .stopKick =>
      match s.main with
      | .posted n => some { s.kickStatus with main := .kicked n }
      | _ => none
  | .waitBegin =>
      match s.main with
      | .kicked n => some { s with main := .waiting n s.snapLastGood }
      | _ => none
  | .waitWake timedOut =>
      match s.main with
      | .waiting n tEntry => some { s with
          main := match s.waitResult tEntry timedOut with
            | none => .waiting n tEntry
            | some ok => .returned n ok }
      | _ => none
  | .latch elapsed => if s.worker = .waiting ∧ s.stopRequested = false then some (s.latch elapsed) else none
  | .exit => if s.worker = .waiting ∧ s.stopRequested then some { s with worker := .exited } else none
  | .write =>
      match s.worker with
      | .writing seen doStop doSet doStatus => some (s.writeNext seen doStop doSet doStatus)
      | _ => none
  | .reply reply mono =>
      match s.worker with
      | .reading seen pos => some { s with worker := .replied seen pos reply mono }
      | _ => none
  | .publish =>
      match s.worker with
      | .replied seen pos reply mono => some (s.publish seen pos mono reply)
      | _ => none

/-- The ways the two threads get on. -/
inductive Stepped (s : RotatorAsync) : Action → RotatorAsync → Prop
  | submitSet (az el : Double) (hmain : s.mainFree = true) :
      Stepped s (.submitSet az el) { s.submitSet az el with main := .free }
  | submitStop (hmain : s.mainFree = true) : Stepped s .submitStop { s.submitStop with main := .free }
  | kickStatus (hmain : s.mainFree = true) : Stepped s .kickStatus { s.kickStatus with main := .free }
  | close (hmain : s.mainFree = true) : Stepped s .close { s with stopRequested := true, main := .free }
  | stopTracking (hmain : s.mainFree = true) :
      Stepped s .stopTracking { s.submitStop with main := .posted s.requests.length }
  | stopKick (n : ℕ) (hmain : s.main = .posted n) : Stepped s .stopKick { s.kickStatus with main := .kicked n }
  | waitBegin (n : ℕ) (hmain : s.main = .kicked n) : Stepped s .waitBegin { s with main := .waiting n s.snapLastGood }
  | waitWake (timedOut : Bool) (n tEntry : ℕ) (hmain : s.main = .waiting n tEntry) :
      Stepped s (.waitWake timedOut) { s with
        main := match s.waitResult tEntry timedOut with
          | none => .waiting n tEntry
          | some ok => .returned n ok }
  | latch (elapsed : Bool) (hw : s.worker = .waiting) (hrun : s.stopRequested = false) :
      Stepped s (.latch elapsed) (s.latch elapsed)
  | exit (hw : s.worker = .waiting) (hstop : s.stopRequested = true) : Stepped s .exit { s with worker := .exited }
  | write (seen : ℕ) (doStop : Option ℕ) (doSet : Option (ℕ × Double × Double)) (doStatus : Bool)
      (hw : s.worker = .writing seen doStop doSet doStatus) : Stepped s .write (s.writeNext seen doStop doSet doStatus)
  | reply (reply : Option (Double × Double)) (mono seen pos : ℕ) (hw : s.worker = .reading seen pos) :
      Stepped s (.reply reply mono) { s with worker := .replied seen pos reply mono }
  | publish (seen pos mono : ℕ) (reply : Option (Double × Double)) (hw : s.worker = .replied seen pos reply mono) :
      Stepped s .publish (s.publish seen pos mono reply)

/-- There are no others. -/
theorem stepped {s s' : RotatorAsync} {a : Action} (hs : s.step a = some s') : Stepped s a s' := by
  cases a with
  | submitSet az el =>
      simp only [step, Option.ite_none_right_eq_some, Option.some.injEq] at hs
      obtain ⟨hmain, rfl⟩ := hs
      exact .submitSet az el hmain
  | submitStop =>
      simp only [step, Option.ite_none_right_eq_some, Option.some.injEq] at hs
      obtain ⟨hmain, rfl⟩ := hs
      exact .submitStop hmain
  | kickStatus =>
      simp only [step, Option.ite_none_right_eq_some, Option.some.injEq] at hs
      obtain ⟨hmain, rfl⟩ := hs
      exact .kickStatus hmain
  | close =>
      simp only [step, Option.ite_none_right_eq_some, Option.some.injEq] at hs
      obtain ⟨hmain, rfl⟩ := hs
      exact .close hmain
  | stopTracking =>
      simp only [step, Option.ite_none_right_eq_some, Option.some.injEq] at hs
      obtain ⟨hmain, rfl⟩ := hs
      exact .stopTracking hmain
  | stopKick =>
      simp only [step] at hs
      split at hs <;> cases hs
      next n hmain => exact .stopKick n hmain
  | waitBegin =>
      simp only [step] at hs
      split at hs <;> cases hs
      next n hmain => exact .waitBegin n hmain
  | waitWake timedOut =>
      simp only [step] at hs
      split at hs <;> cases hs
      next n tEntry hmain => exact .waitWake timedOut n tEntry hmain
  | latch elapsed =>
      simp only [step, Option.ite_none_right_eq_some, Option.some.injEq] at hs
      obtain ⟨⟨hw, hrun⟩, rfl⟩ := hs
      exact .latch elapsed hw hrun
  | exit =>
      simp only [step, Option.ite_none_right_eq_some, Option.some.injEq] at hs
      obtain ⟨⟨hw, hstop⟩, rfl⟩ := hs
      exact .exit hw hstop
  | write =>
      simp only [step] at hs
      split at hs <;> cases hs
      next seen doStop doSet doStatus hw => exact .write seen doStop doSet doStatus hw
  | reply reply mono =>
      simp only [step] at hs
      split at hs <;> cases hs
      next seen pos hw => exact .reply reply mono seen pos hw
  | publish =>
      simp only [step] at hs
      split at hs <;> cases hs
      next seen pos reply mono hw => exact .publish seen pos mono reply hw

end RotatorAsync

end SimpleSatOps.Rotator
