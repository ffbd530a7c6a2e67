import SimpleSatOps.Lib.CText
import SimpleSatOps.Lib.Fifo
import SimpleSatOps.Lib.Machine

/-!
# The audit log

Threads put events into a ring, a writer thread takes them out and writes them, and at exit the writer is stopped.

* `Event`, `Line` : `audit_evt_t`, and what is written to the log;
* `Audit` : the ring, the flags, where the threads stand, and what has happened;
* `Action`, `Audit.step` : the interleavings of their critical sections and writes;
* `Stepped`, `stepped` : the ways a step gets on, and that there are no others;
* `Alive`, `Audited` : no event is put into the ring behind the writer's back; what is to hold of the log.
-/

namespace SimpleSatOps.AuditLog

def SSO_AUDIT_RING_SIZE : ℕ := 256

/-- `audit_evt_t`; `num` is the number of the call it comes from. -/
structure Event where
  ts : ℕ
  event : List UInt8
  detail : List UInt8
  num : ℕ
deriving DecidableEq

/-- A line of the log: an event by the writer or by its own thread, or `audit-overflow dropped=n`. -/
inductive Line where
  | queued (e : Event)
  | direct (e : Event)
  | overflow (n : ℕ)
deriving DecidableEq

/-- Where the writer stands. `writing` has the rest of what it took out of the ring, and the dropped count it took. -/
inductive Worker where
  | none
  | waiting
  | writing (todo : List Event) (dropped : ℕ)
  | exited
deriving DecidableEq

/-- Where a thread stands in `sso_audit_event` or `sso_audit_start` with its event. -/
inductive Thread where
  | idle
  | enqueuing (num : ℕ) (event detail : List UInt8)
  | appending (num : ℕ) (event detail : List UInt8)
deriving DecidableEq

/-- Where the exiting thread stands in `audit_worker_close`. -/
inductive Exit where
  | running
  | joining
  | joined
  | returned
deriving DecidableEq

/-- The state of the module and of its threads; `calls` are the events so far, `accepted` those that were put into the
ring, in this order. -/
structure Audit where
  ring : Fifo Event SSO_AUDIT_RING_SIZE
  dropped : ℕ
  started : Bool
  stop : Bool
  worker : Worker
  exit : Exit
  threads : ℕ → Thread
  calls : List (List UInt8 × List UInt8)
  accepted : List Event
  log : List Line

/-- What is stored of an event in the ring; `-` for an empty name. -/
def storedEvent (ts num : ℕ) (event detail : List UInt8) : Event :=
  ⟨ts, snprintf 64 (if event = [] then text "-" else event), snprintf 480 detail, num⟩

namespace Audit

def initial : Audit where
  ring := .empty (fun _ => ⟨0, [], [], 0⟩) (by decide)
  dropped := 0
  started := false
  stop := false
  worker := .none
  exit := .running
  threads _ := .idle
  calls := []
  accepted := []
  log := []

inductive Action where
  | event (i : ℕ) (event detail : List UInt8)
  | start (i : ℕ) (created : Bool) (detail : List UInt8)
  | enqueue (i ts : ℕ)
  | append (i ts : ℕ)
  | drain
  | write
  | close
  | join
  | closed

/-- The call number of the next event. -/
def call (s : Audit) (i : ℕ) (event detail : List UInt8) (up : Bool) : Audit :=
  { s with
    threads := Function.update s.threads i
      (if up then .enqueuing s.calls.length event detail else .appending s.calls.length event detail)
    calls := s.calls ++ [(event, detail)] }

/-- `audit_worker_init` when the writer is not started. -/
def created (s : Audit) : Audit := { s with worker := .waiting, started := true }

/-- The critical section of `audit_enqueue`. -/
def enqueue (s : Audit) (i : ℕ) (e : Event) : Audit :=
  { s with
    ring := s.ring.putLatest e
    dropped := if s.ring.count = SSO_AUDIT_RING_SIZE then s.dropped + 1 else s.dropped
    threads := Function.update s.threads i .idle
    accepted := s.accepted ++ [e] }

/-- The synchronous `append_line`. -/
def append (s : Audit) (i : ℕ) (e : Event) : Audit :=
  { s with threads := Function.update s.threads i .idle, log := s.log ++ [.direct e] }

/-- The critical section of `audit_worker_fn` with something in the ring. -/
def drain (s : Audit) : Audit :=
  { s with worker := .writing s.ring.toList s.dropped, ring := s.ring.drained, dropped := 0 }

/-- The writer writes its next line. -/
def write (s : Audit) : List Event → ℕ → Audit
  | e :: todo, dropped => { s with worker := .writing todo dropped, log := s.log ++ [.queued e] }
  | [], dropped => { s with worker := .waiting, log := if 0 < dropped then s.log ++ [.overflow dropped] else s.log }

/-- `event` and `start` are the first critical sections of `sso_audit_event` and `sso_audit_start`, `drain` and `write`
steps of the writer, `close` to `closed` those of `audit_worker_close` at exit. -/
def step (s : Audit) : Action → Option Audit
  | .event i event detail => if s.threads i = .idle then some (s.call i event detail s.started) else none
  | .start i created detail =>
      if s.threads i = .idle then
        some (if s.started then s.call i (text "start") detail true
          else if created then s.created.call i (text "start") detail true
          else s.call i (text "start") detail false)
      else none
  | .enqueue i ts =>
      match s.threads i with
      | .enqueuing num event detail => some (s.enqueue i (storedEvent ts num event detail))
      | _ => none
  | .append i ts =>
      match s.threads i with
      | .appending num event detail => some (s.append i (storedEvent ts num event detail))
      | _ => none
  | .drain =>
      if s.worker = .waiting then
        if 0 < s.ring.count then some s.drain
        else if s.stop then some { s with worker := .exited }
        else none
      else none
  | .write =>
      match s.worker with
      | .writing todo dropped => some (s.write todo dropped)
      | _ => none
  | .close =>
      if s.exit = .running then
        some (if s.started && !s.stop then { s with stop := true, exit := .joining } else { s with exit := .returned })
      else none
  | .join => if s.exit = .joining ∧ s.worker = .exited then some { s with exit := .joined } else none
  | .closed => if s.exit = .joined then some { s with started := false, exit := .returned } else none

/-- The ways the threads get on. -/
inductive Stepped (s : Audit) : Action → Audit → Prop
  | event (i : ℕ) (event detail : List UInt8) (hi : s.threads i = .idle) :
      Stepped s (.event i event detail) (s.call i event detail s.started)
  | start (i : ℕ) (created : Bool) (detail : List UInt8) (hi : s.threads i = .idle) (hstarted : s.started = true) :
      Stepped s (.start i created detail) (s.call i (text "start") detail true)
  | created (i : ℕ) (detail : List UInt8) (hi : s.threads i = .idle) (hstarted : s.started = false) :
      Stepped s (.start i true detail) (s.created.call i (text "start") detail true)
  | notCreated (i : ℕ) (detail : List UInt8) (hi : s.threads i = .idle) (hstarted : s.started = false) :
      Stepped s (.start i false detail) (s.call i (text "start") detail false)
  | enqueue (i ts num : ℕ) (event detail : List UInt8) (hi : s.threads i = .enqueuing num event detail) :
      Stepped s (.enqueue i ts) (s.enqueue i (storedEvent ts num event detail))
  | append (i ts num : ℕ) (event detail : List UInt8) (hi : s.threads i = .appending num event detail) :
      Stepped s (.append i ts) (s.append i (storedEvent ts num event detail))
  | drain (hw : s.worker = .waiting) (hcount : 0 < s.ring.count) : Stepped s .drain s.drain
  | exit (hw : s.worker = .waiting) (hcount : ¬0 < s.ring.count) (hstop : s.stop = true) :
      Stepped s .drain { s with worker := .exited }
  | write (todo : List Event) (dropped : ℕ) (hw : s.worker = .writing todo dropped) :
      Stepped s .write (s.write todo dropped)
  | close (hexit : s.exit = .running) : Stepped s .close
      (if s.started && !s.stop then { s with stop := true, exit := .joining } else { s with exit := .returned })
  | join (hexit : s.exit = .joining) (hw : s.worker = .exited) : Stepped s .join { s with exit := .joined }
  | closed (hexit : s.exit = .joined) : Stepped s .closed { s with started := false, exit := .returned }

/-- There are no others. -/
theorem stepped {s s' : Audit} {a : Action} (hs : s.step a = some s') : Stepped s a s' := by
  cases a with
  | event i event detail =>
      simp only [step, Option.ite_none_right_eq_some, Option.some.injEq] at hs
      obtain ⟨hi, rfl⟩ := hs
      exact .event i event detail hi
  | start i created detail =>
      simp only [step, Option.ite_none_right_eq_some, Option.some.injEq] at hs
      obtain ⟨hi, rfl⟩ := hs
      split
      · next hstarted => exact .start i created detail hi hstarted
      · next hstarted =>
          have hstarted : s.started = false := Bool.eq_false_iff.mpr hstarted
          cases created with
          | true => exact .created i detail hi hstarted
          | false => exact .notCreated i detail hi hstarted
  | enqueue i ts =>
      simp only [step] at hs
      split at hs <;> cases hs
      next num event detail hi => exact .enqueue i ts num event detail hi
  | append i ts =>
      simp only [step] at hs
      split at hs <;> cases hs
      next num event detail hi => exact .append i ts num event detail hi
  | drain =>
      simp only [step] at hs
      split at hs
      · next hw =>
          split at hs
          · next hcount =>
              cases hs
              exact .drain hw hcount
          · next hcount =>
              split at hs <;> cases hs
              next hstop => exact .exit hw hcount hstop
      · cases hs
  | write =>
      simp only [step] at hs
      split at hs <;> cases hs
      next todo dropped hw => exact .write todo dropped hw
  | close =>
      simp only [step, Option.ite_none_right_eq_some, Option.some.injEq] at hs
      obtain ⟨hexit, rfl⟩ := hs
      exact .close hexit
  | join =>
      simp only [step, Option.ite_none_right_eq_some, Option.some.injEq] at hs
      obtain ⟨⟨hexit, hw⟩, rfl⟩ := hs
      exact .join hexit hw
  | closed =>
      simp only [step, Option.ite_none_right_eq_some, Option.some.injEq] at hs
      obtain ⟨hexit, rfl⟩ := hs
      exact .closed hexit

end Audit

/-! ## What is to hold -/

/-- The events the writer has written. -/
def queuedOf (log : List Line) : List Event :=
  log.filterMap fun
    | .queued e => some e
    | _ => none

def directOf (log : List Line) : List Event :=
  log.filterMap fun
    | .direct e => some e
    | _ => none

/-- The sum of the dropped counts in the log. -/
def overflowOf (log : List Line) : ℕ :=
  (log.map fun
    | .overflow n => n
    | _ => 0).sum

/-- The call a thread is in, with its texts. -/
def Thread.held : Thread → Option (ℕ × List UInt8 × List UInt8)
  | .idle => none
  | .enqueuing num event detail | .appending num event detail => some (num, event, detail)

/-- The event is that of its call. -/
def Says (calls : List (List UInt8 × List UInt8)) (e : Event) : Prop :=
  ∃ event detail, calls[e.num]? = some (event, detail) ∧ e = storedEvent e.ts e.num event detail

/-- Every event is put into the ring or written by its own thread, once, or its thread is still at it; the writer writes
events in the order they were put into the ring; and when `audit_worker_close` has returned, those it has not written
are counted as dropped. -/
def Audit.Audited (s : Audit) : Prop :=
  ((s.accepted ++ directOf s.log).map Event.num).Nodup ∧
    (∀ n < s.calls.length, n ∈ (s.accepted ++ directOf s.log).map Event.num ∨
      ∃ i x, (s.threads i).held = some (n, x)) ∧
    (∀ e ∈ s.accepted ++ directOf s.log, Says s.calls e) ∧
    (queuedOf s.log).Sublist s.accepted ∧
    (s.exit = .returned → s.accepted.length = (queuedOf s.log).length + overflowOf s.log)

/-- An event is put into the ring before the writer has ended and before `audit_worker_close` has returned. -/
def Audit.Alive (s : Audit) : Audit.Action → Prop
  | .enqueue _ _ => s.worker ≠ .exited ∧ s.exit ≠ .returned
  | _ => True

instance (s : Audit) (a : Audit.Action) : Decidable (s.Alive a) :=
  match a with
  | .enqueue _ _ => inferInstanceAs (Decidable (_ ∧ _))
  | .event _ _ _ | .start _ _ _ | .append _ _ | .drain | .write | .close | .join | .closed => .isTrue trivial

end SimpleSatOps.AuditLog
